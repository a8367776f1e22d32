import StatRollup.Proofs.Engine.Scene

/-!
# Conservation

Every event that a mailbox took is counted in each cell that it belongs to exactly once, in the cell
itself or in what some worker has in hand, whatever moves are made and in whatever order.

What makes a single move safe is the order of starts and stops.  Processors before the next one to
start take messages already, processors before the next one to stop have no workers any more, and
only a processor that is being waited for is stopping (`Scene.Sound`).  A move keeps this, and adds
to every cell what the events contribute that it brought to a mailbox (`Scene.step_leads`).  So does
a run of moves (`Scene.run_leads`).
-/

namespace StatRollup

open Uid (Tables)

/-- How far a start or a stop got. -/
def Phase.Fits (e : Engine) : Phase → Prop
  | steady => True
  | starting todo => ∃ before, ProcessorId.all.reverse = before ++ todo ∧
      ∀ id ∈ before, e.told? id = some false
  | stopping todo => ∃ before, ProcessorId.all = before ++ todo ∧ ∀ id ∈ before, e.told? id = none
  | awaiting id todo => ∃ before, ProcessorId.all = before ++ id :: todo ∧
      ∀ j ∈ before, e.told? j = none

theorem Phase.Fits.congr {e e' : Engine} {phase : Phase} (h : phase.Fits e)
    (htold : ∀ id, e'.told? id = e.told? id) : phase.Fits e' := by
  cases phase with
  | steady => trivial
  | starting todo =>
    obtain ⟨before, heq, hall⟩ := h
    exact ⟨before, heq, fun id hid => (htold id).trans (hall id hid)⟩
  | stopping todo =>
    obtain ⟨before, heq, hall⟩ := h
    exact ⟨before, heq, fun id hid => (htold id).trans (hall id hid)⟩
  | awaiting id todo =>
    obtain ⟨before, heq, hall⟩ := h
    exact ⟨before, heq, fun id hid => (htold id).trans (hall id hid)⟩

namespace Scene

variable {settings : Settings} {names : List String} {s s' s'' : Scene} {e : Engine} {m : Move}
  {gain : Target → Nat} {t : Target}

/-- A scene that loses nothing. -/
structure Sound (settings : Settings) (names : List String) (s : Scene) : Prop where
  /-- The pipeline loses nothing. -/
  engine : s.engine.Sound settings names
  /-- Starts and stops go from one processor to the next. -/
  phase : s.phase.Fits s.engine
  /-- A processor that is stopping is being waited for. -/
  awaited {id : ProcessorId} : s.engine.told? id = some true → ∃ todo, s.phase = .awaiting id todo
  /-- Events are on their way to the processors of their definitions. -/
  submissions : ∀ x ∈ s.submissions, x.Fits s.engine.shared.registry

/-- From one sound scene to another, with a gain for every target. -/
structure Leads (settings : Settings) (names : List String) (s s' : Scene) : Prop where
  sound : s'.Sound settings names
  registry : s'.engine.shared.registry = s.engine.shared.registry
  gains : ∃ taken, s'.accepted = s.accepted ++ taken ∧
    ∀ t : Target, t.Registered s.engine.shared.registry →
      Tallies (s'.engine.amount t) (s.engine.amount t + t.ofEvents taken)

theorem Leads.refl (h : s.Sound settings names) : Leads settings names s s :=
  ⟨h, rfl, [], (List.append_nil _).symm, fun _ _ => .refl _⟩

theorem Leads.trans (h : Leads settings names s s') (h' : Leads settings names s' s'') :
    Leads settings names s s'' := by
  obtain ⟨taken, heq, htally⟩ := h.gains
  obtain ⟨taken', heq', htally'⟩ := h'.gains
  refine ⟨h'.sound, h'.registry.trans h.registry, taken ++ taken', ?_, fun t ht => ?_⟩
  · rw [heq', heq, List.append_assoc]
  · refine (htally' t (h.registry ▸ ht)).trans (((htally t ht).add_right _).trans (.of_eq ?_))
    rw [Target.ofEvents, Target.ofEvents, Target.ofEvents, List.map_append, List.sum_append,
      Nat.add_assoc]

/-! ## Moves of the engine -/

/-- A scene stays sound while its engine works. -/
theorem Sound.of_leads (h : s.Sound settings names) (hl : s.engine.Leads settings names e gain) :
    ({ s with engine := e } : Scene).Sound settings names :=
  ⟨hl.sound, h.phase.congr hl.told, fun ht => h.awaited ((hl.told _).symm.trans ht),
    fun x hx => hl.registry ▸ h.submissions x hx⟩

theorem leads_of_engine (h : s.Sound settings names)
    (hl : s.engine.Leads settings names e fun _ => 0) :
    Leads settings names s { s with engine := e } :=
  ⟨h.of_leads hl, hl.registry, [], (List.append_nil _).symm, hl.tallies⟩

/-! ## Submissions -/

theorem submit_leads (h : s.Sound settings names) (events : List Event) :
    Leads settings names s (s.submit events) := by
  obtain ⟨hresembles, hrouted⟩ := s.engine.route_ok events
  have hl := hresembles.leads h.engine
  have hleads := leads_of_engine h hl
  rw [submit]
  split
  · exact hleads
  · refine ⟨⟨hleads.sound.engine, hleads.sound.phase, hleads.sound.awaited, fun x hx => ?_⟩,
      hleads.registry, hleads.gains⟩
    rcases List.mem_append.1 hx with hx | hx
    · exact hleads.sound.submissions x hx
    · obtain rfl := List.mem_singleton.1 hx
      refine ⟨fun hd => (nomatch hd), fun g hg event hevent => ?_⟩
      rw [hl.registry]
      exact hrouted _ (Engine.mem_groups hg hevent)

theorem send_leads (h : s.Sound settings names) (i : Nat)
    (hnamed : ∀ event ∈ (s.send i).accepted, ∀ n ∈ event.mentions, n ∈ names) :
    Leads settings names s (s.send i) := by
  rw [send] at hnamed ⊢
  split
  · exact .refl h
  · next x hx =>
    rw [hx] at hnamed
    dsimp only at hnamed
    obtain ⟨hl, hfits⟩ := Submission.step_ok h.engine (h.submissions x (List.mem_of_getElem? hx))
      fun event hevent => hnamed event (List.mem_append_right _ hevent)
    have hsound := h.of_leads hl
    refine ⟨⟨hsound.engine, hsound.phase, hsound.awaited, fun y hy => ?_⟩, hl.registry, _, rfl,
      hl.tallies⟩
    rcases List.mem_or_eq_of_mem_set hy with hmem | rfl
    · exact hsound.submissions y hmem
    · exact hl.registry ▸ hfits

theorem giveUp_leads (h : s.Sound settings names) (i : Nat) :
    Leads settings names s (s.step (.giveUp i)) := by
  refine ⟨⟨h.engine, h.phase, h.awaited, fun x hx => ?_⟩, rfl, [], (List.append_nil _).symm,
    fun _ _ => .refl _⟩
  obtain ⟨j, hj⟩ := List.mem_iff_getElem?.1 hx
  rw [step, List.getElem?_modify] at hj
  obtain ⟨y, hy, rfl⟩ := Option.map_eq_some_iff.1 hj
  have hfits := h.submissions y (List.mem_of_getElem? hy)
  split
  · exact hfits.giveUp
  · exact hfits

/-! ## Starting and stopping -/

theorem leads_of_changes {id : ProcessorId} {phase : Phase} (h : s.Sound settings names)
    (hc : Engine.Changes settings names id s.engine e fun _ => 0) (hphase : phase.Fits e)
    (hawaited : ∀ {j}, e.told? j = some true → ∃ todo, phase = .awaiting j todo) :
    Leads settings names s { s with engine := e, phase } := by
  have hregistry : e.shared.registry = s.engine.shared.registry := by rw [hc.shared]
  refine ⟨⟨hc.sound, hphase, hawaited, fun x hx => ?_⟩, hregistry, [],
    (List.append_nil _).symm, fun t _ => .of_eq (hc.amount t)⟩
  show x.Fits e.shared.registry
  exact hregistry ▸ h.submissions x hx

theorem begin_leads {phase : Phase} (h : s.Sound settings names) (hphase : phase.Fits s.engine) :
    Leads settings names s (s.begin phase) := by
  rw [begin]
  split
  · next hsteady =>
    refine ⟨⟨h.engine, hphase, fun ht => ?_, h.submissions⟩, rfl, [], (List.append_nil _).symm,
      fun _ _ => .refl _⟩
    obtain ⟨todo, hawaiting⟩ := h.awaited ht
    rw [hsteady] at hawaiting
    cases hawaiting
  · exact .refl h

theorem steady_leads (h : s.Sound settings names)
    (hphase : ∀ id todo, s.phase ≠ .awaiting id todo) :
    Leads settings names s { s with phase := .steady } := by
  refine ⟨⟨h.engine, trivial, fun ht => ?_, h.submissions⟩, rfl, [], (List.append_nil _).symm,
    fun _ _ => .refl _⟩
  obtain ⟨todo, hawaiting⟩ := h.awaited ht
  exact absurd hawaiting (hphase _ _)

theorem proceed_leads (h : s.Sound settings names) : Leads settings names s s.proceed := by
  have hfits := h.phase
  have hawaited : ∀ id, s.engine.told? id = some true → ∃ todo, s.phase = .awaiting id todo :=
    fun _ => h.awaited
  rw [proceed]
  split
  · exact .refl h
  · next hphase => exact steady_leads h fun _ _ heq => nomatch hphase.symm.trans heq
  · next id todo hphase =>
    rw [hphase] at hfits hawaited
    obtain ⟨before, heq, hall⟩ := hfits
    have hquiet : ∀ j, s.engine.told? j ≠ some true := fun j ht => by
      obtain ⟨_, hawaiting⟩ := hawaited j ht
      cases hawaiting
    obtain ⟨hc, hopen⟩ := Engine.start_changes h.engine (hquiet id) fun j hj =>
      hall j (ProcessorId.mem_of_split_reverse heq hj)
    refine leads_of_changes h hc ⟨before ++ [id], by rw [heq, List.append_assoc]; rfl,
      hc.told?_append hopen hall⟩ fun {j} ht => ?_
    exact absurd (hc.of_told? (by rw [hopen]; decide) ht).2 (hquiet j)
  · next hphase => exact steady_leads h fun _ _ heq => nomatch hphase.symm.trans heq
  · next id todo hphase =>
    rw [hphase] at hfits hawaited
    obtain ⟨before, heq, hall⟩ := hfits
    have hc := Engine.beginStop_changes h.engine fun j hj =>
      hall j (ProcessorId.mem_of_split heq hj)
    refine leads_of_changes h hc ⟨before, heq, fun j hj => ?_⟩ fun {j} ht => ?_
    · rw [hc.told? (ProcessorId.ne_of_mem_before heq hj)]
      exact hall j hj
    · by_cases hne : j = id
      · exact ⟨todo, by rw [hne]⟩
      · obtain ⟨_, hawaiting⟩ := hawaited j ((hc.told? hne).symm.trans ht)
        cases hawaiting
  · next id todo hphase =>
    rw [hphase] at hfits hawaited
    obtain ⟨before, heq, hall⟩ := hfits
    split
    · next hdone =>
      obtain ⟨hc, hnone⟩ := Engine.endStop_changes h.engine hdone fun j hj =>
        hall j (ProcessorId.mem_of_split heq hj)
      refine leads_of_changes h hc ⟨before ++ [id], by rw [heq, List.append_assoc]; rfl,
        hc.told?_append hnone hall⟩ fun {j} ht => ?_
      obtain ⟨hne, hold⟩ := hc.of_told? (by rw [hnone]; decide) ht
      obtain ⟨_, hawaiting⟩ := hawaited j hold
      cases hawaiting
      exact absurd rfl hne
    · exact .refl h

/-! ## All moves -/

/-- A move gains the events that a mailbox took in it, and nothing else. -/
theorem step_leads (h : s.Sound settings names) (hkeep : ∀ i, settings.retention i = none)
    (hnamed : ∀ event ∈ (s.step m).accepted, ∀ n ∈ event.mentions, n ∈ names) :
    Leads settings names s (s.step m) := by
  cases m with
  | submit events => exact submit_leads h events
  | send i => exact send_leads h i hnamed
  | giveUp i => exact giveUp_leads h i
  | turn w =>
    refine leads_of_engine h ?_
    cases hturn : s.engine.turn w with
    | none => exact (Engine.Resembles.refl _).leads h.engine
    | some e => exact Engine.turn_leads h.engine hkeep hturn
  | line ready parked =>
    have hline : s.engine.Alike { s.engine with ready, parked } := ⟨rfl, rfl⟩
    exact leads_of_engine h ((Engine.Resembles.of_alike hline).leads h.engine)
  | wait time => exact leads_of_engine h ((Engine.resembles_passTo _ _).leads h.engine)
  | arrange order =>
    have hr : s.engine.Resembles
        { s.engine with shared := { s.engine.shared with arrange := order.1 } } :=
      ⟨rfl, rfl, rfl, rfl, fun _ => order.2⟩
    exact leads_of_engine h (hr.leads h.engine)
  | start => exact begin_leads h ⟨[], by rw [h.engine.ids]; rfl, fun _ hid => nomatch hid⟩
  | stop => exact begin_leads h ⟨[], by rw [h.engine.ids]; rfl, fun _ hid => nomatch hid⟩
  | proceed => exact proceed_leads h

/-! ## Runs -/

/-- No event that a mailbox took is forgotten. -/
theorem accepted_step (s : Scene) (m : Move) : s.accepted <+: (s.step m).accepted := by
  cases m with
  | submit events =>
    rw [step, submit]
    split <;> exact List.prefix_rfl
  | send i =>
    rw [step, send]
    split
    · exact List.prefix_rfl
    · exact List.prefix_append _ _
  | giveUp i => exact List.prefix_rfl
  | turn w => exact List.prefix_rfl
  | line ready parked => exact List.prefix_rfl
  | wait time => exact List.prefix_rfl
  | arrange order => exact List.prefix_rfl
  | start =>
    rw [step, begin]
    split <;> exact List.prefix_rfl
  | stop =>
    rw [step, begin]
    split <;> exact List.prefix_rfl
  | proceed =>
    rw [step, proceed]
    split
    case h_6 => split <;> exact List.prefix_rfl
    all_goals exact List.prefix_rfl

theorem accepted_run (s : Scene) (moves : List Move) : s.accepted <+: (s.run moves).accepted := by
  induction moves generalizing s with
  | nil => exact List.prefix_rfl
  | cons m moves ih => exact (accepted_step s m).trans (ih (s.step m))

/-- A run gains the events that mailboxes took in it, and nothing else. -/
theorem run_leads (h : s.Sound settings names) (hkeep : ∀ i, settings.retention i = none)
    (moves : List Move)
    (hnamed : ∀ event ∈ (s.run moves).accepted, ∀ n ∈ event.mentions, n ∈ names) :
    Leads settings names s (s.run moves) := by
  induction moves generalizing s with
  | nil => exact .refl h
  | cons m moves ih =>
    have hstep : Leads settings names s (s.step m) := step_leads h hkeep fun event hevent =>
      hnamed event ((accepted_run (s.step m) moves).subset hevent)
    exact hstep.trans (ih hstep.sound hnamed)

end Scene

/-! ## Pipelines -/

/-- What a new pipeline shares: stores that will not fail, a dictionary and a store of one width,
and no cells yet. -/
structure Shared.Blank (s : Shared) : Prop where
  /-- Definitions are under their own names. -/
  registry : s.registry.Proper
  /-- The dictionary is sound. -/
  dictionary : s.dictionary.Sound
  /-- No write is going to fail. -/
  steady : s.store.Steady
  /-- Nothing is stored yet. -/
  empty : ∃ cap, s.store.cells = .empty s.tables.width cap
  /-- Entries leave a window in some order. -/
  arranged (entries : List Entry) : (s.arrange entries).Perm entries

section

variable {settings : Settings} {names : List String} {shared : Shared} {engine : Engine}
  {t : Target}

theorem Shared.Blank.sound (h : shared.Blank) (room : shared.dictionary.HasRoom names) :
    shared.Sound names := by
  obtain ⟨cap, hempty⟩ := h.empty
  exact ⟨h.registry, h.dictionary, room, h.steady, hempty ▸ Cells.orderly_empty _ _ _, h.arranged⟩

namespace Engine

theorem eq_of_pipeline {σ : Type} [Uid.Store σ] {shared : Shared σ} {engine : Engine σ}
    (h : pipeline settings shared = .ok engine) :
    engine = { shared, processors := ProcessorId.all.map fun id =>
      { id, settings, forward := id.coarser? } } := by
  rw [pipeline] at h
  obtain ⟨_, _, h⟩ := bind_eq_ok.1 h
  cases h
  rfl

/-- A pipeline that was not started is sound and holds nothing. -/
theorem pipeline_sound (h : pipeline settings shared = .ok engine) (hb : shared.Blank)
    (room : shared.dictionary.HasRoom names) :
    engine.Sound settings names ∧ (∀ id, engine.told? id = none) ∧ ∀ t, engine.amount t = 0 := by
  have heq := eq_of_pipeline h
  have hshared : engine.shared = shared := by rw [heq]
  have hp : ∀ p ∈ engine.processors, p = { id := p.id, settings, forward := p.id.coarser? } := by
    intro p hp
    rw [heq] at hp
    obtain ⟨id, _, rfl⟩ := List.mem_map.1 hp
    rfl
  have hcrew : ∀ id, engine.crew? id = none := by
    intro id
    rw [crew?]
    cases hfound : engine.processor? id with
    | none => rfl
    | some p => rw [Option.bind_some, hp p (mem_of_processor? hfound)]
  refine ⟨⟨?_, fun hfound => ?_, hshared ▸ hb.sound room, fun hc => ?_⟩, fun id => ?_, fun t => ?_⟩
  · rw [heq, List.map_map]
    exact List.map_id' _
  · rw [hp _ (mem_of_processor? hfound)]
    exact ⟨rfl, rfl, rfl⟩
  · rw [hcrew] at hc
    cases hc
  · rw [told?, hcrew]
    rfl
  · obtain ⟨cap, hempty⟩ := hb.empty
    have htotal : engine.total (Worker.load engine.shared.tables t) = 0 := by
      refine List.sum_eq_zero fun n hn => ?_
      obtain ⟨p, hmem, rfl⟩ := List.mem_map.1 hn
      rw [hp p hmem]
      rfl
    rw [amount, htotal, hshared, hempty, Target.held_empty]

/-- Without workers nothing is pending. -/
theorem total_of_told? (hids : (engine.processors.map Processor.id).Nodup)
    (h : ∀ id, engine.told? id = none) (f : Worker → Nat) : engine.total f = 0 := by
  refine List.sum_eq_zero fun n hn => ?_
  obtain ⟨p, hp, rfl⟩ := List.mem_map.1 hn
  have hcrew : p.crew = none := by
    have hnone := Option.map_eq_none_iff.1 (h p.id)
    rwa [crew?, processor?_of_mem hids hp] at hnone
  rw [Processor.workers, hcrew]
  rfl

end Engine

/-- Whatever happens to a pipeline, what a cell holds and what workers have in hand for it is the
sum of what the accepted events contribute to it, up to the largest count; and once no worker is
left the cell holds all of it. -/
theorem held_add_pending (hnew : Engine.pipeline settings shared = .ok engine)
    (hb : shared.Blank) (hkeep : ∀ i, settings.retention i = none) (moves : List Move)
    (room : shared.dictionary.HasRoom
      ((Scene.run { engine } moves).accepted.flatMap Event.mentions))
    (ht : t.Registered shared.registry) :
    let s := Scene.run { engine } moves
    let held := t.held s.engine.shared.tables s.engine.shared.store.cells
    let pending := s.engine.total (Worker.load s.engine.shared.tables t)
    let accepted := t.ofEvents s.accepted
    Tallies (held + pending) accepted ∧ (accepted ≤ ceiling → held + pending = accepted) ∧
      ((∀ id, s.engine.crew? id = none) → held = min ceiling accepted) := by
  intro s held pending accepted
  obtain ⟨hsound, htold, hzero⟩ := Engine.pipeline_sound hnew hb room
  have hstart : Scene.Sound settings (s.accepted.flatMap Event.mentions) { engine } :=
    ⟨hsound, trivial, (fun h => nomatch (htold _).symm.trans h), fun x hx => nomatch hx⟩
  have hrun := Scene.run_leads hstart hkeep moves fun event hevent n hn =>
    List.mem_flatMap.2 ⟨event, hevent, hn⟩
  obtain ⟨taken, htaken, htally⟩ := hrun.gains
  have hregistry : engine.shared.registry = shared.registry := by
    rw [Engine.eq_of_pipeline hnew]
  have htallies : Tallies (held + pending) accepted := by
    have hfinal := htally t (hregistry ▸ ht)
    rw [hzero, Nat.zero_add] at hfinal
    rw [show accepted = t.ofEvents taken from congrArg t.ofEvents htaken]
    exact hfinal
  refine ⟨htallies, fun hfit => htallies.eq hfit, fun hnone => ?_⟩
  have hpending : pending = 0 := by
    refine Engine.total_of_told? hrun.sound.engine.nodup (fun id => ?_) _
    rw [Engine.told?, hnone]
    rfl
  rw [hpending, Nat.add_zero] at htallies
  exact htallies.eq_min Target.held_le

end

namespace Logins

/-- Logins per hour, with and without the user. -/
def statistic : Statistic :=
  { name := "logins", kind := .count, policy := .all, precision := .hour, tags := .ofList ["user"] }

/-- One partition per processor. -/
def settings : Settings := { uidWidth := 1, dictionaryCacheCapacity := 1, partitions := 1 }

/-- One definition, and nothing stored. -/
def shared : Shared :=
  Engine.sharedOf settings ⟨Registry.empty.byName.insert statistic.name statistic⟩ 0 0 0

/-- A pipeline that was not started. -/
def engine : Engine :=
  { shared, processors := ProcessorId.all.map fun id => { id, settings, forward := id.coarser? } }

/-- Some logins of a user. -/
def event (user : String) (time : Timestamp) (n : UInt64) : Event :=
  { name := "logins", timestamp := time, tags := [⟨"user", user⟩], reading := .count n }

/-- The pipeline starts, takes two events of different hours and users, and stops. -/
def moves : List Move :=
  List.flatten [
    .start :: ProcessorId.all.map fun _ => .proceed,
    [.proceed, .submit [event "a" 0 3, event "b" 3600000 4], .send 0, .send 0, .stop],
    ProcessorId.all.flatMap fun id =>
      .proceed :: (List.replicate 7 (.turn ⟨id, 0⟩)).concat .proceed]

/-- All logins of a day. -/
def target : Target :=
  { statistic, mask := ⟨1, by decide⟩, interval := .day, time := 0, values := fun _ => "" }

end Logins

/-- Both events are in the cell of their day once the pipeline has stopped. -/
theorem held_logins :
    Logins.target.held (Scene.run { engine := Logins.engine } Logins.moves).engine.shared.tables
      (Scene.run { engine := Logins.engine } Logins.moves).engine.shared.store.cells = 7 := by
  have hnew : Engine.pipeline Logins.settings Logins.shared = .ok Logins.engine := rfl
  have hb : Logins.shared.Blank :=
    ⟨Registry.proper_empty.insert _, Uid.Dictionary.sound_new (by decide) _ _ _, ⟨rfl, rfl⟩,
      ⟨_, rfl⟩, fun _ => .refl _⟩
  have room : Logins.shared.dictionary.HasRoom
      ((Scene.run { engine := Logins.engine } Logins.moves).accepted.flatMap Event.mentions) := by
    unfold Uid.Dictionary.HasRoom
    decide +kernel
  have hregistered : Logins.target.Registered Logins.shared.registry :=
    ⟨by decide +kernel, by decide +kernel, by decide⟩
  have hstopped : ∀ id ∈ ProcessorId.all,
      ((Scene.run { engine := Logins.engine } Logins.moves).engine.crew? id).isNone = true := by
    decide +kernel
  have hheld := (held_add_pending hnew hb (fun _ => rfl) Logins.moves room hregistered).2.2
    fun id => Option.isNone_iff_eq_none.1 (hstopped id (ProcessorId.mem_all id))
  rw [hheld]
  decide +kernel

end StatRollup
