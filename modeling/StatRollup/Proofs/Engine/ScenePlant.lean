import StatRollup.Proofs.Engine.Chain
import StatRollup.Proofs.Engine.PlantOperations
import StatRollup.Proofs.Engine.Refusal

/-!
# Scenes are plants

A `Scene` moves a pipeline as a whole and a `Plant` moves its processors one by one.  Whatever
happens in a scene happens in a plant as well (`Scene.plays_run`): what a submission delivers to a
processor is a call with a number of its own (`Scene.Booked`), each of its steps is a step of that
call, and a start or a stop of the pipeline is a start or a stop of one processor after another.
What submissions and the clock change of what workers share is what others do in the plant.

So the engine of a scene is the engine of a plant whose books are in order (`Scene.in_order`), and
the events that the scene counts as accepted are those that mailboxes took from calls.
-/

namespace StatRollup

variable {σ : Type} [Uid.Store σ]

/-- A processor that a start or a stop waits for. -/
def Phase.awaits (id : ProcessorId) : Phase → Bool
  | awaiting i _ => decide (i = id)
  | _ => false

/-- A call that has in hand what a submission is delivering. -/
structure Call.Carries (call : Call) (d : Delivery) : Prop where
  id : call.id = d.id
  serial : call.serial = d.serial
  parts : call.parts = d.parts
  back : call.back = d.unsent

/-- A part that is handed back leaves both in the same way. -/
theorem Call.Carries.skip {call : Call} {d : Delivery} {partition : Nat} {events : List Event}
    {parts : List (Nat × List Event)} (h : call.Carries d)
    (hparts : d.parts = (partition, events) :: parts) :
    call.skip.Carries { d with parts, unsent := d.unsent ++ events } := by
  rw [Call.skip, h.parts.trans hparts]
  exact ⟨h.id, h.serial, rfl, congrArg (· ++ events) h.back⟩

/-! ## Engines -/

namespace Engine

variable {e : Engine σ} {id : ProcessorId}

theorem rejectAll_eq (e : Engine σ) (f : Fault) (events : List Event) :
    e.rejectAll f events = e.withBad (events.map (Ingest.badOf · f)) := by
  induction events generalizing e with
  | nil => rfl
  | cons event events ih => exact ih (e.reject event f)

/-- Without workers there is nothing to stop, and nothing to wait for. -/
theorem beginStop_eq_endStop (hids : (e.processors.map Processor.id).Nodup)
    (hcrew : e.crew? id = none) : e.beginStop id = (e.endStop id).2 := by
  have hworkers : ((((e.modify id Processor.beginStop).processor? id).map workersOf).getD []) =
      [] := by
    have hsame : (e.modify id Processor.beginStop).crew? id = none := by
      have hid : ∀ p : Processor, p.beginStop.id = p.id := fun p => by rw [Engine.beginStop_eq]
      rw [crew?_modify hid, if_pos rfl]
      cases hp : e.processor? id with
      | none => rfl
      | some p =>
        rw [crew?_eq hp] at hcrew
        rw [Option.bind_some, Engine.beginStop_eq, hcrew]
        rfl
    cases hp : (e.modify id Processor.beginStop).processor? id with
    | none => rfl
    | some p =>
      rw [crew?_eq hp] at hsame
      rw [Option.map_some, Option.getD_some, workersOf, hsame]
      rfl
  have hbegun : e.beginStop id = e.modify id Processor.beginStop := by
    rw [beginStop, hworkers]
    simp
  rw [hbegun, endStop]
  cases hp : e.processor? id with
  | none =>
    rw [processor?, List.find?_eq_none] at hp
    have hnone : ∀ q ∈ e.processors, (if q.id = id then q.beginStop else q) = q :=
      fun q hq => if_neg (by simpa using hp q hq)
    rw [modify, List.map_congr_left hnone, List.map_id']
  | some p =>
    dsimp only
    rw [modify, modify]
    congr 1
    refine List.map_congr_left fun q hq => ?_
    split
    · next hid =>
      have hq' : e.processor? id = some q := hid ▸ processor?_of_mem hids hq
      rw [hp] at hq'
      cases hq'
      rw [crew?_eq hp] at hcrew
      rw [Engine.beginStop_eq, Engine.endStop_eq, hcrew]
      rfl
    · rfl

end Engine

/-! ## Steps of submissions -/

/-- All that a step of a submission can do. -/
inductive Submission.Steps (e : Engine σ) (x : Submission) :
    Engine σ × List Event × Submission → Prop where
  /-- There is nothing to do, or the mailbox is full. -/
  | stays : Steps e x (e, [], x)
  /-- Events are rejected, and with them a delivery ends or does not begin. -/
  | rejects (f : Fault) (events : List Event) (groups : List (ProcessorId × List Event)) :
    Steps e x (e.rejectAll f events, [], { groups })
  /-- A delivery begins. -/
  | opens {id : ProcessorId} {events : List Event} {groups : List (ProcessorId × List Event)}
      {p : Processor} {crew : Crew}
      (found : (e.processor? id).bind (fun p => p.openCrew?.map fun c => (p, c)) = some (p, crew)) :
    Steps e x (e, [], ⟨some ⟨id, crew.serial, p.partitioner.split events, []⟩, groups⟩)
  /-- A mailbox takes the next part. -/
  | delivers {d : Delivery} {partition : Nat} {events : List Event}
      {parts : List (Nat × List Event)} {e' : Engine σ} (under : x.delivery = some d)
      (next : d.parts = (partition, events) :: parts)
      (taken : e.deliver d.id d.serial partition (.events events) = .taken e') :
    Steps e x (e', events, { x with delivery := some { d with parts } })
  /-- A mailbox refuses the next part. -/
  | skips {d : Delivery} {partition : Nat} {events : List Event}
      {parts : List (Nat × List Event)} {f : Fault} (under : x.delivery = some d)
      (next : d.parts = (partition, events) :: parts)
      (refused : e.deliver d.id d.serial partition (.events events) = .refused f) :
    Steps e x (e, [], { x with delivery := some { d with parts, unsent := d.unsent ++ events } })

theorem Submission.steps_step (e : Engine σ) (x : Submission) : Steps e x (x.step e) := by
  obtain ⟨delivery, groups⟩ := x
  cases delivery with
  | none =>
    cases groups with
    | nil => exact .stays
    | cons g groups =>
      obtain ⟨id, events⟩ := g
      rw [step]
      dsimp only
      cases hopen : (e.processor? id).bind fun p => p.openCrew?.map fun c => (p, c) with
      | none => exact .rejects ..
      | some found => exact .opens hopen
  | some d =>
    obtain ⟨id, serial, parts, unsent⟩ := d
    cases parts with
    | nil => exact .rejects ..
    | cons part parts =>
      obtain ⟨partition, events⟩ := part
      rw [step]
      dsimp only
      cases hd : e.deliver id serial partition (.events events) with
      | waits => exact .stays
      | taken e' => exact .delivers (d := ⟨id, serial, _, unsent⟩) rfl rfl hd
      | refused f => exact .skips (d := ⟨id, serial, _, unsent⟩) rfl rfl hd

namespace Scene

variable {submissions submissions' : List Submission} {calls : List Call} {callOf : Nat → Nat}
  {i : Nat} {x : Submission} {d : Delivery} {call : Call}

/-! ## Submissions and calls -/

/-- What a submission is delivering. -/
def delivery? (submissions : List Submission) (i : Nat) : Option Delivery :=
  submissions[i]?.bind Submission.delivery

/-- Each delivery is carried by a call of its own. -/
structure Booked (submissions : List Submission) (calls : List Call) (callOf : Nat → Nat) :
    Prop where
  carried {i : Nat} {d : Delivery} : delivery? submissions i = some d →
    ∃ call, calls[callOf i]? = some call ∧ call.Carries d
  apart {i j : Nat} {d d' : Delivery} : delivery? submissions i = some d →
    delivery? submissions j = some d' → callOf i = callOf j → i = j

theorem delivery?_set {j : Nat} (h : delivery? (submissions.set i x) j = some d) :
    (i = j ∧ x.delivery = some d) ∨ (i ≠ j ∧ delivery? submissions j = some d) := by
  rw [delivery?, List.getElem?_set] at h
  split at h
  · next heq =>
    split at h
    · exact .inl ⟨heq, h⟩
    · cases h
  · next hne => exact .inr ⟨hne, h⟩

/-- Deliveries may end. -/
theorem Booked.of_sub (h : Booked submissions calls callOf)
    (hsub : ∀ j d, delivery? submissions' j = some d → delivery? submissions j = some d) :
    Booked submissions' calls callOf where
  carried hd := h.carried (hsub _ _ hd)
  apart hd hd' := h.apart (hsub _ _ hd) (hsub _ _ hd')

theorem Booked.ends (h : Booked submissions calls callOf) (hx : x.delivery = none) :
    Booked (submissions.set i x) calls callOf := by
  refine h.of_sub fun j d hd => ?_
  obtain ⟨_, hnew⟩ | ⟨_, hold⟩ := delivery?_set hd
  · rw [hx] at hnew
    cases hnew
  · exact hold

/-- A delivery goes on with its call. -/
theorem Booked.goesOn (h : Booked submissions calls callOf) (hi : delivery? submissions i = some d)
    (hx : ∀ d', x.delivery = some d' → call.Carries d') :
    Booked (submissions.set i x) (calls.set (callOf i) call) callOf := by
  obtain ⟨old, hold, _⟩ := h.carried hi
  have hlt := (List.getElem?_eq_some_iff.1 hold).1
  have hearlier : ∀ {j d'}, delivery? (submissions.set i x) j = some d' →
      ∃ d'', delivery? submissions j = some d'' := fun {j d'} hd => by
    obtain ⟨rfl, _⟩ | ⟨_, hother⟩ := delivery?_set hd
    · exact ⟨d, hi⟩
    · exact ⟨d', hother⟩
  refine ⟨fun {j d'} hd => ?_, fun hd hd' => ?_⟩
  · obtain ⟨rfl, hnew⟩ | ⟨hne, hother⟩ := delivery?_set hd
    · exact ⟨call, List.getElem?_set_self hlt, hx d' hnew⟩
    · obtain ⟨call', hcall', hcarries⟩ := h.carried hother
      exact ⟨call', by rwa [List.getElem?_set_ne fun heq => hne (h.apart hi hother heq)], hcarries⟩
  · obtain ⟨_, hd⟩ := hearlier hd
    obtain ⟨_, hd'⟩ := hearlier hd'
    exact h.apart hd hd'

/-- A delivery begins with a new call. -/
theorem Booked.opens (h : Booked submissions calls callOf) (hx : x.delivery = some d)
    (hcall : call.Carries d) :
    ∃ callOf', Booked (submissions.set i x) (calls ++ [call]) callOf' := by
  -- The calls of the other deliveries are older.
  have holder : ∀ {j d'}, delivery? submissions j = some d' → callOf j < calls.length :=
    fun hd => by
      obtain ⟨_, hfound, _⟩ := h.carried hd
      exact (List.getElem?_eq_some_iff.1 hfound).1
  refine ⟨fun j => if j = i then calls.length else callOf j,
    fun {j d'} hd => ?_, fun {j k d' d''} hd hd' heq => ?_⟩
  · obtain ⟨rfl, hnew⟩ | ⟨hne, hother⟩ := delivery?_set hd
    · rw [hx] at hnew
      cases hnew
      exact ⟨call, by simp, hcall⟩
    · obtain ⟨call', hcall', hcarries⟩ := h.carried hother
      exact ⟨call', by simpa [Ne.symm hne, List.getElem?_append_left (holder hother)], hcarries⟩
  · obtain ⟨rfl, _⟩ | ⟨hne, hother⟩ := delivery?_set hd
    · obtain ⟨rfl, _⟩ | ⟨hne', hother'⟩ := delivery?_set hd'
      · rfl
      · simp only [if_pos, Ne.symm hne', if_false] at heq
        exact absurd heq (holder hother').ne'
    · obtain ⟨rfl, _⟩ | ⟨hne', hother'⟩ := delivery?_set hd'
      · simp only [if_pos, Ne.symm hne, if_false] at heq
        exact absurd heq (holder hother).ne
      · simp only [Ne.symm hne, Ne.symm hne', if_false] at heq
        exact h.apart hother hother' heq

/-! ## Scenes in plants -/

/-- A plant in which everything is as in a scene. -/
structure Plays (s : Scene σ) (p : Plant σ) : Prop where
  engine : p.engine = s.engine
  accepted : s.accepted = p.arrivals.flatMap fun a => a.message.raw
  booked : ∃ callOf, Booked s.submissions p.calls callOf
  /-- A processor is stopping when it is waited for, and at no other time. -/
  told {id : ProcessorId} {b : Bool} : s.engine.told? id = some b → b = s.phase.awaits id
  nodup : (s.engine.processors.map Processor.id).Nodup

variable {s s' : Scene σ} {p : Plant σ} {first e : Engine σ} {id : ProcessorId}

/-- Nothing but work happened, and the scene is again as the plant. -/
theorem Plays.work (h : s.Plays p) (hp : p.Sound first) {m : Plant.Move σ}
    (hm : m.isLifecycle = false) (hengine : (p.step m).engine = s'.engine)
    (hphase : s'.phase = s.phase)
    (haccepted : s'.accepted = (p.step m).arrivals.flatMap fun a => a.message.raw)
    (hbooked : ∃ callOf, Booked s'.submissions (p.step m).calls callOf) : s'.Plays (p.step m) := by
  have hframe := hp.frame_step hm
  rw [h.engine, hengine] at hframe
  refine ⟨hengine, haccepted, hbooked, fun htold => ?_, hframe.ids ▸ h.nodup⟩
  rw [hphase]
  exact h.told ((hframe.settled _).1 ▸ htold)

/-- Others change what workers share, and deliveries may end. -/
theorem Plays.share (h : s.Plays p) (hp : p.Sound first) (shared : Shared σ)
    (harranged : ∀ entries, (shared.arrange entries).Perm entries)
    {submissions : List Submission} (hbooked : ∃ callOf, Booked submissions p.calls callOf) :
    ∃ m, Plays { s with engine := { s.engine with shared }, submissions } (p.step m) := by
  refine ⟨.share ⟨shared, harranged⟩, h.work hp rfl ?_ rfl h.accepted hbooked⟩
  show { p.engine with shared } = { s.engine with shared }
  rw [h.engine]

theorem Plays.arranged (h : s.Plays p) (hp : p.Sound first) (entries : List Entry) :
    (s.engine.shared.arrange entries).Perm entries := h.engine ▸ hp.engine.arranged entries

/-- Events are rejected in the name of the pipeline. -/
theorem Plays.withBad (h : s.Plays p) (hp : p.Sound first) (bads : List BadEvent)
    {submissions : List Submission} (hbooked : ∃ callOf, Booked submissions p.calls callOf) :
    ∃ m, Plays { s with engine := s.engine.withBad bads, submissions } (p.step m) :=
  h.share hp (s.engine.withBad bads).shared (h.arranged hp) hbooked

/-- A new submission delivers nothing yet. -/
theorem Plays.submit (h : s.Plays p) (hp : p.Sound first) (events : List Event) :
    ∃ m, (s.submit events).Plays (p.step m) := by
  rw [Scene.submit, Engine.route_engine]
  split
  · exact h.withBad hp _ h.booked
  · obtain ⟨callOf, hbooked⟩ := h.booked
    refine h.withBad hp _ ⟨callOf, hbooked.of_sub fun j d hd => ?_⟩
    rw [delivery?, List.getElem?_append] at hd
    split at hd
    · exact hd
    · rw [List.getElem?_singleton] at hd
      split at hd <;> cases hd

section

variable {partition : Nat} {events : List Event} {parts : List (Nat × List Event)}
  {groups : List (ProcessorId × List Event)}

/-- A delivery begins with a new call. -/
theorem Plays.opens (h : s.Plays p) (hp : p.Sound first) (i : Nat) {processor : Processor}
    {crew : Crew}
    (found : (s.engine.processor? id).bind (fun p => p.openCrew?.map fun c => (p, c)) =
      some (processor, crew)) :
    let d : Delivery := ⟨id, crew.serial, processor.partitioner.split events, []⟩
    ∃ m, Plays { s with submissions := s.submissions.set i ⟨some d, groups⟩ } (p.step m) := by
  intro d
  obtain ⟨callOf, hbooked⟩ := h.booked
  have hnew : Plant.newCall p.engine id events =
      { id, events, serial := crew.serial, parts := processor.partitioner.split events } := by
    rw [h.engine, Plant.newCall, found]
  have hstep : (p.step (.submit id events)).calls = p.calls ++
      [{ id, events, serial := crew.serial, parts := processor.partitioner.split events }] := by
    rw [← hnew]
    rfl
  refine ⟨.submit id events, h.work hp rfl h.engine rfl h.accepted ?_⟩
  rw [hstep]
  exact hbooked.opens rfl ⟨rfl, rfl, rfl, rfl⟩

/-- A mailbox takes the next part of a delivery, which is that of its call. -/
theorem Plays.delivers (h : s.Plays p) (hp : p.Sound first)
    (hd : delivery? s.submissions i = some d)
    (next : d.parts = (partition, events) :: parts)
    (taken : s.engine.deliver d.id d.serial partition (.events events) = .taken e) :
    ∃ m, Plays { s with
      engine := e
      submissions := s.submissions.set i ⟨some { d with parts }, groups⟩
      accepted := s.accepted ++ events } (p.step m) := by
  obtain ⟨callOf, hbooked⟩ := h.booked
  obtain ⟨call, hcall, hcarries⟩ := hbooked.carried hd
  have hstep : p.step (.deliver (callOf i)) = _ :=
    Plant.deliver_eq hcall (hcarries.parts.trans next)
      (by rw [hcarries.id, hcarries.serial, h.engine]; exact taken)
  refine ⟨.deliver (callOf i), h.work hp rfl ?_ rfl ?_ ⟨callOf, ?_⟩⟩
  · rw [hstep]
  · rw [hstep, List.flatMap_append, ← h.accepted]
    simp [Message.raw]
  · rw [hstep]
    refine hbooked.goesOn hd fun d' hd' => ?_
    cases hd'
    exact ⟨hcarries.id, hcarries.serial, rfl, hcarries.back⟩

/-- A mailbox refuses the next part of a delivery, and of its call. -/
theorem Plays.skips (h : s.Plays p) (hp : p.Sound first)
    (hd : delivery? s.submissions i = some d)
    (next : d.parts = (partition, events) :: parts) {f : Fault}
    (refused : s.engine.deliver d.id d.serial partition (.events events) = .refused f) :
    let d' : Delivery := { d with parts, unsent := d.unsent ++ events }
    ∃ m, Plays { s with submissions := s.submissions.set i ⟨some d', groups⟩ } (p.step m) := by
  intro _
  obtain ⟨callOf, hbooked⟩ := h.booked
  obtain ⟨call, hcall, hcarries⟩ := hbooked.carried hd
  have hparts := hcarries.parts.trans next
  have hstep : p.step (.deliver (callOf i)) =
      { p with calls := p.calls.set (callOf i) call.skip } := by
    have hrefused : p.engine.deliver call.id call.serial partition (.events events) =
        .refused f := by rw [hcarries.id, hcarries.serial, h.engine]; exact refused
    rw [Plant.step, Plant.deliver, hcall]
    simp only [hparts, hrefused, List.modify_eq_set_getElem?, hcall]
    rfl
  refine ⟨.deliver (callOf i), h.work hp rfl ?_ rfl ?_ ⟨callOf, ?_⟩⟩
  · rw [hstep, h.engine]
  · rw [hstep, h.accepted]
  · rw [hstep]
    refine hbooked.goesOn hd fun d' hd' => ?_
    cases hd'
    exact hcarries.skip next

end

/-- A step of a submission is at most one step of its call. -/
theorem Plays.send (h : s.Plays p) (hp : p.Sound first) (i : Nat) :
    ∃ moves, (s.send i).Plays (p.run moves) := by
  cases hx : s.submissions[i]? with
  | none =>
    rw [Scene.send, hx]
    exact ⟨[], h⟩
  | some x =>
    have hsend : s.send i = { s with
        engine := (x.step s.engine).1
        submissions := s.submissions.set i (x.step s.engine).2.2
        accepted := s.accepted ++ (x.step s.engine).2.1 } := by rw [Scene.send, hx]
    have hdelivery : delivery? s.submissions i = x.delivery := by rw [delivery?, hx]; rfl
    have hsteps := x.steps_step s.engine
    rw [hsend]
    generalize x.step s.engine = next at hsteps ⊢
    cases hsteps with
    | stays =>
      obtain ⟨hi, rfl⟩ := List.getElem?_eq_some_iff.1 hx
      refine ⟨[], ?_⟩
      rw [List.append_nil, List.set_getElem_self]
      exact h
    | rejects f events groups =>
      obtain ⟨callOf, hbooked⟩ := h.booked
      rw [List.append_nil, Engine.rejectAll_eq]
      obtain ⟨m, hplays⟩ := h.withBad hp (events.map (Ingest.badOf · f))
        ⟨callOf, hbooked.ends (i := i) (x := { groups }) rfl⟩
      exact ⟨[m], hplays⟩
    | opens found =>
      rw [List.append_nil]
      obtain ⟨m, hplays⟩ := h.opens hp i found
      exact ⟨[m], hplays⟩
    | delivers under next taken =>
      obtain ⟨m, hplays⟩ := h.delivers hp (hdelivery.trans under) next taken
      exact ⟨[m], hplays⟩
    | skips under next refused =>
      rw [List.append_nil]
      obtain ⟨m, hplays⟩ := h.skips hp (hdelivery.trans under) next refused
      exact ⟨[m], hplays⟩

/-- A submission that does not wait any longer takes back what its call takes back. -/
theorem Plays.giveUp (h : s.Plays p) (hp : p.Sound first) (i : Nat) :
    ∃ moves, (s.step (.giveUp i)).Plays (p.run moves) := by
  obtain ⟨callOf, hbooked⟩ := h.booked
  rw [Scene.step, List.modify_eq_set_getElem?]
  cases hx : s.submissions[i]? with
  | none => exact ⟨[], h⟩
  | some x =>
    show ∃ moves, Plays { s with submissions := s.submissions.set i x.giveUp } _
    cases hdelivery : x.delivery with
    | none =>
      have hsame : x.giveUp = x := by rw [Submission.giveUp, hdelivery]
      refine ⟨[], h.engine, h.accepted, ⟨callOf, ?_⟩, h.told, h.nodup⟩
      exact hbooked.ends (by rw [hsame, hdelivery])
    | some d =>
      have hd : delivery? s.submissions i = some d := by rw [delivery?, hx]; exact hdelivery
      obtain ⟨call, hcall, hcarries⟩ := hbooked.carried hd
      refine ⟨[.giveUp (callOf i)],
        h.work hp (m := .giveUp (callOf i)) rfl h.engine rfl h.accepted ⟨callOf, ?_⟩⟩
      show Booked _ (p.calls.modify (callOf i) Call.skip) callOf
      rw [List.modify_eq_set_getElem?, hcall]
      refine hbooked.goesOn hd fun d' hd' => ?_
      obtain ⟨id, serial, parts, unsent⟩ := d
      rw [Submission.giveUp, hdelivery] at hd'
      cases parts with
      | nil =>
        rw [hdelivery] at hd'
        cases hd'
        rw [Call.skip, hcarries.parts]
        exact hcarries
      | cons part parts =>
        cases hd'
        exact hcarries.skip rfl

/-! ## Work -/

theorem Plays.turn (h : s.Plays p) (hp : p.Sound first) (w : WorkerId) :
    (s.step (.turn w)).Plays (p.step (.turn w)) := by
  cases hturn : s.engine.turn w with
  | none =>
    have hsame : p.step (.turn w) = p := by rw [Plant.step, Plant.turn, h.engine, hturn]
    rw [Scene.step, hturn, hsame]
    exact h
  | some e =>
    rw [← h.engine] at hturn
    obtain ⟨slot, hslot⟩ := Plant.exists_slot hturn
    have hstep : p.step (.turn w) = _ := Plant.turn_eq hturn hslot
    refine h.work hp rfl ?_ rfl ?_ ?_
    · rw [hstep, Scene.step, ← h.engine, hturn]
      rfl
    · -- What workers bring to mailboxes is nothing that calls bring.
      have hraw : ((p.engine.handover? w).toList.map fun x => Arrival.mk (.worker slot) x.1
          (.rollups x.2)).flatMap (fun a => a.message.raw) = [] := by
        cases p.engine.handover? w <;> rfl
      rw [hstep, List.flatMap_append, hraw, List.append_nil]
      exact h.accepted
    · rw [hstep]
      exact h.booked

theorem Plays.line (h : s.Plays p) (hp : p.Sound first) (ready parked : List WorkerId) :
    (s.step (.line ready parked)).Plays (p.step (.line ready parked)) := by
  refine h.work hp rfl ?_ rfl h.accepted h.booked
  show { p.engine with ready, parked } = { s.engine with ready, parked }
  rw [h.engine]

/-- Time passes, and then other workers are in line. -/
theorem Plays.wait (h : s.Plays p) (hp : p.Sound first)
    (hforward : ∀ id, first.forward? id ≠ some id) (time : Nat) :
    ∃ moves, (s.step (.wait time)).Plays (p.run moves) := by
  obtain ⟨m, hm⟩ := h.share hp { s.engine.shared with now := time } (h.arranged hp)
    h.booked
  obtain ⟨ready, hready⟩ := Plant.foldl_wake_eq
    { s.engine with shared := { s.engine.shared with now := time } }
    ((s.engine.alarms.filter fun a => a.1 ≤ time).map (·.2))
  refine ⟨[m, .line ready s.engine.parked], ?_⟩
  rw [Scene.step, Engine.passTo, hready]
  exact hm.line (Plant.step_sound hp hforward m) ready s.engine.parked

/-! ## Starting and stopping -/

theorem Plays.isStopping (h : s.Plays p) (id : ProcessorId) :
    p.isStopping id = (s.engine.told? id).any fun b => b := by
  rw [Plant.isStopping, h.engine, Engine.told?]
  cases s.engine.crew? id <;> rfl

/-- While a scene waits for no processor, none is stopping. -/
theorem Plays.free (h : s.Plays p) (hphase : s.phase.awaits id = false) :
    p.isStopping id = false := by
  rw [h.isStopping]
  cases htold : s.engine.told? id with
  | none => rfl
  | some b => exact (h.told htold).trans hphase

/-- A start or a stop begins, and nothing else. -/
theorem Plays.begin (h : s.Plays p) {phase : Phase} (hphase : ∀ id, phase.awaits id = false) :
    (s.begin phase).Plays p := by
  rw [Scene.begin]
  split
  · next hsteady =>
    refine ⟨h.engine, h.accepted, h.booked, fun htold => ?_, h.nodup⟩
    rw [h.told htold, hsteady, hphase]
    rfl
  · exact h

/-- One processor starts or stops. -/
theorem Plays.settles (h : s.Plays p) (id : ProcessorId) {phase : Phase}
    (hids : e.processors.map Processor.id = s.engine.processors.map Processor.id)
    (hown : ∀ b, e.told? id = some b → b = phase.awaits id)
    (hothers : ∀ j, j ≠ id → e.told? j = s.engine.told? j ∧ phase.awaits j = s.phase.awaits j) :
    Plays { s with engine := e, phase } { p with engine := e } := by
  refine ⟨rfl, h.accepted, h.booked, fun {j b} htold => ?_, hids ▸ h.nodup⟩
  by_cases hj : j = id
  · subst hj
    exact hown b htold
  · obtain ⟨htold', hphase⟩ := hothers j hj
    exact (h.told (htold' ▸ htold)).trans hphase.symm

theorem Plays.start (h : s.Plays p) {todo : List ProcessorId}
    (hphase : s.phase = .starting (id :: todo)) :
    Plays { s with engine := s.engine.start id, phase := .starting todo }
      (p.step (.start id)) := by
  have hfree : p.isStopping id = false := h.free (by rw [hphase]; rfl)
  rw [Plant.step, if_neg (by rw [hfree]; exact Bool.false_ne_true), h.engine]
  have hawaits : ∀ j, (Phase.starting todo).awaits j = s.phase.awaits j :=
    fun j => by rw [hphase]; rfl
  obtain hsame | ⟨q, _, hr⟩ := Engine.start_cases s.engine id
  · rw [hsame]
    exact h.settles id rfl (fun b htold => (h.told htold).trans (hawaits id).symm)
      fun j _ => ⟨rfl, hawaits j⟩
  · refine h.settles id hr.ids (fun b htold => ?_) fun j hj => ⟨?_, hawaits j⟩
    · rw [Engine.told?_eq hr.own] at htold
      cases htold
      rfl
    · exact (hr.settles.others hj).1

theorem Plays.beginStop (h : s.Plays p) {todo : List ProcessorId}
    (hphase : s.phase = .stopping (id :: todo)) :
    Plays { s with engine := s.engine.beginStop id, phase := .awaiting id todo }
      (p.step (.stop id)) := by
  have hfree : p.isStopping id = false := h.free (by rw [hphase]; rfl)
  rw [Plant.step, if_neg (by rw [hfree]; exact Bool.false_ne_true), h.engine]
  have hawaits : ∀ j, j ≠ id → (Phase.awaiting id todo).awaits j = s.phase.awaits j :=
    fun j hj => by
      rw [hphase]
      exact decide_eq_false hj.symm
  cases hq : s.engine.processor? id with
  | none =>
    have hnone : s.engine.told? id = none := by rw [Engine.told?, Engine.crew?, hq]; rfl
    obtain ⟨hsame, _⟩ | ⟨q, hr⟩ := Engine.beginStop_cases s.engine id
    · have htold : ∀ j, (s.engine.beginStop id).told? j = s.engine.told? j :=
        fun j => congrArg (Option.map Crew.isStopping) (hsame.crew? j)
      refine h.settles id (by rw [hsame.processors]) (fun b hb => ?_)
        fun j hj => ⟨htold j, hawaits j hj⟩
      rw [htold, hnone] at hb
      cases hb
    · rw [hr.found] at hq
      cases hq
  | some q =>
    have hs := Engine.settles_beginStop hq
    refine h.settles id (Engine.replaces_beginStop hq).ids (fun b hb => ?_)
      fun j hj => ⟨(hs.others hj).1, hawaits j hj⟩
    rw [hs.own.1] at hb
    obtain ⟨_, _, rfl⟩ := Option.map_eq_some_iff.1 hb
    exact (decide_eq_true rfl).symm

/-- Without workers, ending a stop is what beginning it was. -/
theorem Plays.endStop (h : s.Plays p) {todo : List ProcessorId}
    (hphase : s.phase = .awaiting id todo) (hdone : s.engine.isDone id = true) :
    ∃ m, Plays { s with engine := (s.engine.endStop id).2, phase := .stopping todo }
      (p.step m) := by
  have hawaits : ∀ j, j ≠ id → (Phase.stopping todo).awaits j = s.phase.awaits j :=
    fun j hj => by
      rw [hphase]
      exact (decide_eq_false hj.symm).symm
  have hplays : Plays { s with engine := (s.engine.endStop id).2, phase := .stopping todo }
      { p with engine := (s.engine.endStop id).2 } := by
    cases hq : s.engine.processor? id with
    | none =>
      have hnone : s.engine.told? id = none := by rw [Engine.told?, Engine.crew?, hq]; rfl
      have hsame : (s.engine.endStop id).2 = s.engine := by rw [Engine.endStop, hq]
      rw [hsame]
      refine h.settles id rfl (fun b hb => ?_) fun j hj => ⟨rfl, hawaits j hj⟩
      rw [hnone] at hb
      cases hb
    | some q =>
      have hs := Engine.settles_endStop hq
      refine h.settles id (Engine.replaces_endStop hq).ids (fun b hb => ?_)
        fun j hj => ⟨(hs.others hj).1, hawaits j hj⟩
      rw [hs.own.1] at hb
      cases hb
  cases hcrew : s.engine.crew? id with
  | none =>
    refine ⟨.stop id, ?_⟩
    have hfree : p.isStopping id = false := by rw [Plant.isStopping, h.engine, hcrew]; rfl
    rw [Plant.step, if_neg (by rw [hfree]; exact Bool.false_ne_true), h.engine,
      Engine.beginStop_eq_endStop h.nodup hcrew]
    exact hplays
  | some c =>
    refine ⟨.finish id, ?_⟩
    have hstopping : p.isStopping id = true := by
      rw [Plant.isStopping, h.engine, hcrew]
      exact (h.told (b := c.isStopping) (by rw [Engine.told?, hcrew]; rfl)).trans
        (by rw [hphase]; exact decide_eq_true rfl)
    rw [Plant.step, hstopping, h.engine, hdone]
    exact hplays

/-- Moves of a start or a stop are moves of one processor. -/
theorem Plays.proceed (h : s.Plays p) : ∃ moves, s.proceed.Plays (p.run moves) := by
  rw [Scene.proceed]
  split
  · exact ⟨[], h⟩
  · next hphase =>
    refine ⟨[], h.engine, h.accepted, h.booked, fun htold => ?_, h.nodup⟩
    rw [h.told htold, hphase]
    rfl
  · next id todo hphase => exact ⟨[.start id], h.start hphase⟩
  · next hphase =>
    refine ⟨[], h.engine, h.accepted, h.booked, fun htold => ?_, h.nodup⟩
    rw [h.told htold, hphase]
    rfl
  · next id todo hphase => exact ⟨[.stop id], h.beginStop hphase⟩
  · next id todo hphase =>
    split
    · next hdone =>
      obtain ⟨m, hplays⟩ := h.endStop hphase hdone
      exact ⟨[m], hplays⟩
    · exact ⟨[], h⟩

/-! ## Runs -/

/-- Every move of a scene is made of moves of the plant. -/
theorem Plays.step (h : s.Plays p) (hp : p.Sound first)
    (hforward : ∀ id, first.forward? id ≠ some id) (m : Move) :
    ∃ moves, (s.step m).Plays (p.run moves) := by
  cases m with
  | submit events =>
    obtain ⟨m, hplays⟩ := h.submit hp events
    exact ⟨[m], hplays⟩
  | send i => exact h.send hp i
  | giveUp i => exact h.giveUp hp i
  | turn w => exact ⟨[.turn w], h.turn hp w⟩
  | line ready parked => exact ⟨[.line ready parked], h.line hp ready parked⟩
  | wait time => exact h.wait hp hforward time
  | arrange order =>
    obtain ⟨m, hplays⟩ := h.share hp { s.engine.shared with arrange := order.1 } order.2
      h.booked
    exact ⟨[m], hplays⟩
  | start => exact ⟨[], h.begin fun _ => rfl⟩
  | stop => exact ⟨[], h.begin fun _ => rfl⟩
  | proceed => exact h.proceed

theorem Plays.run (h : s.Plays p) (hp : p.Sound first)
    (hforward : ∀ id, first.forward? id ≠ some id) (moves : List Move) :
    ∃ moves', (s.run moves).Plays (p.run moves') := by
  induction moves generalizing s p with
  | nil => exact ⟨[], h⟩
  | cons m moves ih =>
    obtain ⟨moves', hstep⟩ := h.step hp hforward m
    obtain ⟨moves'', hrun⟩ := ih hstep (Plant.run_sound hp hforward moves')
    refine ⟨moves' ++ moves'', ?_⟩
    rw [Plant.run_append]
    exact hrun

/-- Whatever happens in a scene of a pipeline that nobody has started, it happens in a plant. -/
theorem plays_run {e : Engine σ} (he : e.Fresh) (hids : (e.processors.map Processor.id).Nodup)
    (moves : List Move) :
    ∃ moves', Plays (run { engine := e } moves) (Plant.run { engine := e } moves') := by
  have hstart : Plays { engine := e } { engine := e } := by
    refine ⟨rfl, rfl, ⟨fun i => i, fun hd => ?_, fun hd => ?_⟩, fun htold => ?_, hids⟩
    · cases hd
    · cases hd
    · rw [Engine.told?, he.idle] at htold
      cases htold
  exact hstart.run (Plant.sound_of_fresh he []) he.forward moves

/-- The engine of a scene is in order as that of a plant is, and what the scene counts as accepted
is what mailboxes took from calls. -/
theorem in_order {e : Engine σ} (he : e.Fresh) (hids : (e.processors.map Processor.id).Nodup)
    (moves : List Move) :
    ∃ p : Plant σ, p.Sound e ∧ p.engine = (run { engine := e } moves).engine ∧
      (run { engine := e } moves).accepted = p.arrivals.flatMap fun a => a.message.raw := by
  obtain ⟨moves', hplays⟩ := plays_run he hids moves
  exact ⟨_, Plant.sound_of_fresh he moves', hplays.engine, hplays.accepted⟩

end Scene

end StatRollup
