import StatRollup.Engine.Pipeline
import StatRollup.Proofs.Engine.Plant

/-!
# A submission to the pipeline

An `Ingest` is one call that submits events to the pipeline, cut into the steps that others can come
between: it looks up each event, looks at each processor that events are for, asks one after another
for its crew, brings each partition its events, and rejects those that are handed back.  Every step
sees the engine as the others have left it meanwhile, and whatever that is is a part of the run
(`Ingest.run`), so a run stands for any interleaving.

`step_leaves` says what a step does: it leaves the engine as it is, or a mailbox takes events, or
one more event is among the bad ones.  All of that is on record (`Deed`).  `Fits` relates the record
to the events, and is kept by every step (`Fits.step`).
-/

namespace StatRollup

variable {σ : Type} [Uid.Store σ]

/-- The processor that an event is for. -/
def Event.destination (registry : Registry) (e : Event) : Except Fault ProcessorId :=
  (e.resolve registry).map fun s => ⟨s.kind, s.precision⟩

/-- An event with the processor that it is for. -/
abbrev Addressed := ProcessorId × Event

/-- What becomes of events. -/
inductive Deed where
  /-- A mailbox takes them. -/
  | queued (slot : Slot) (events : List Event)
  /-- A mailbox hands them back. -/
  | returned (slot : Slot) (events : List Event)
  /-- A processor takes no messages and hands them back. -/
  | turnedAway (id : ProcessorId) (events : List Event)
  /-- One is among the bad events. -/
  | rejected (bad : BadEvent)

namespace Deed

/-- The events that a mailbox takes. -/
def accepted : Deed → List Addressed
  | queued slot events => events.map (Prod.mk slot.processor)
  | _ => []

/-- The events that are handed back. -/
def back : Deed → List Addressed
  | returned slot events => events.map (Prod.mk slot.processor)
  | turnedAway id events => events.map (Prod.mk id)
  | _ => []

/-- The event that is rejected. -/
def rejections : Deed → List BadEvent
  | rejected bad => [bad]
  | _ => []

/-- What an engine becomes in a step with or without a deed. -/
def Leaves (e e' : Engine σ) : Option Deed → Prop
  | none => e' = e
  | some (queued slot events) =>
    e.deliver slot.processor slot.serial slot.partition (.events events) = .taken e'
  | some (returned slot events) => e' = e ∧
    ∃ f, e.deliver slot.processor slot.serial slot.partition (.events events) = .refused f
  | some (turnedAway id _) => e' = e ∧ e.openCrew? id = none
  | some (rejected bad) =>
    e' = { e with shared := { e.shared with badEvents := e.shared.badEvents.add bad } }

end Deed

/-- An event with what looking it up gave. -/
abbrev Verdict := Event × Except Fault ProcessorId

namespace Verdict

/-- The event, when it is for a processor. -/
def routed : Verdict → List Addressed
  | (event, .ok id) => [(id, event)]
  | (_, .error _) => []

/-- The event, when it is for no processor. -/
def unroutable : Verdict → List Event
  | (_, .ok _) => []
  | (event, .error _) => [event]

/-- The event, when it is for a processor that is given. -/
def bound (id : ProcessorId) : Verdict → List Event
  | (event, .ok j) => if j = id then [event] else []
  | (_, .error _) => []

end Verdict

/-! ## Steps -/

/-- Where a submission is. -/
inductive Ingest.Stage where
  /-- Events are left to look up. -/
  | routing (todo : List Event)
  /-- Processors are left to look at. -/
  | checking (todo : List ProcessorId)
  /-- Processors are left to ask for their crews. -/
  | asking (todo : List ProcessorId)
  /-- Partitions of a crew are left, with their events, and some events were handed back. -/
  | queueing (id : ProcessorId) (serial : Nat) (parts : List (Nat × List Event))
    (back : List Event) (todo : List ProcessorId)
  /-- Events that were handed back are left to reject. -/
  | rejecting (f : Fault) (back : List Event) (todo : List ProcessorId)
  /-- It has returned. -/
  | done (answer : Except Fault IngestReport)

/-- A submission. -/
structure Ingest where
  /-- Where it is. -/
  stage : Ingest.Stage
  /-- The events that were looked up, in order. -/
  verdicts : List Verdict := []
  /-- The report so far. -/
  report : IngestReport := {}
  /-- What it did. -/
  deeds : List Deed := []

namespace Ingest

/-- The events for a processor, in order. -/
def bound (s : Ingest) (id : ProcessorId) : List Event := s.verdicts.flatMap (Verdict.bound id)

/-- The events for a processor, addressed. -/
def share (s : Ingest) (id : ProcessorId) : List Addressed := (s.bound id).map (Prod.mk id)

/-- The processors that events are for. -/
def targets (s : Ingest) : List ProcessorId :=
  ProcessorId.all.filter fun id => !(s.bound id).isEmpty

/-- A rejected event. -/
def badOf (event : Event) (f : Fault) : BadEvent :=
  { event, reason := f.message, processor := Engine.pipelineName }

/-- The next step, in an engine. -/
def step (e : Engine σ) (s : Ingest) : Ingest :=
  match s.stage with
  | .routing [] => { s with stage := .checking s.targets }
  | .routing (event :: todo) =>
    let verdict := event.destination e.shared.registry
    let s := { s with stage := .routing todo, verdicts := s.verdicts ++ [(event, verdict)] }
    match verdict with
    | .ok _ => s
    | .error f =>
      { s with
        report := { s.report with rejected := s.report.rejected + 1 }
        deeds := s.deeds ++ [.rejected (badOf event f)] }
  | .checking [] => { s with stage := .asking s.targets }
  | .checking (id :: todo) =>
    if (e.processor? id).any Processor.isHealthy then { s with stage := .checking todo }
    else { s with stage := .done (.error (.notRunning id.name)) }
  | .asking [] => { s with stage := .done (.ok s.report) }
  | .asking (id :: todo) =>
    let events := s.bound id
    match (e.processor? id).bind fun p => p.openCrew?.map fun c => (p, c) with
    | none =>
      { s with
        stage := .rejecting (.notRunning id.name) events todo
        report := { s.report with rejected := s.report.rejected + events.length }
        deeds := s.deeds ++ [.turnedAway id events] }
    | some (p, crew) =>
      { s with stage := .queueing id crew.serial (p.partitioner.split events) [] todo }
  | .queueing id _ [] back todo =>
    { s with
      stage := .rejecting (.stopping id.name) back todo
      report :=
        { accepted := s.report.accepted + ((s.bound id).length - back.length)
          rejected := s.report.rejected + back.length } }
  | .queueing id serial ((partition, events) :: parts) back todo =>
    match e.deliver id serial partition (.events events) with
    | .waits => s
    | .taken _ =>
      { s with
        stage := .queueing id serial parts back todo
        deeds := s.deeds ++ [.queued ⟨id, serial, partition⟩ events] }
    | .refused _ =>
      { s with
        stage := .queueing id serial parts (back ++ events) todo
        deeds := s.deeds ++ [.returned ⟨id, serial, partition⟩ events] }
  | .rejecting _ [] todo => { s with stage := .asking todo }
  | .rejecting f (event :: back) todo =>
    { s with
      stage := .rejecting f back todo
      deeds := s.deeds ++ [.rejected (badOf event f)] }
  | .done _ => s

/-- What the next step makes of an engine. -/
def act (e : Engine σ) (s : Ingest) : Engine σ :=
  match s.stage with
  | .routing (event :: _) =>
    match event.destination e.shared.registry with
    | .ok _ => e
    | .error f => e.reject event f
  | .queueing id serial ((partition, events) :: _) _ _ =>
    match e.deliver id serial partition (.events events) with
    | .taken e' => e'
    | _ => e
  | .rejecting f (event :: _) _ => e.reject event f
  | _ => e

/-- The events of the next partition are handed back because there is no room for them. -/
def giveUp (s : Ingest) : Ingest :=
  match s.stage with
  | .queueing id serial ((partition, events) :: parts) back todo =>
    { s with
      stage := .queueing id serial parts (back ++ events) todo
      deeds := s.deeds ++ [.returned ⟨id, serial, partition⟩ events] }
  | _ => s

/-- What happens in a run. -/
inductive Beat (σ : Type := Uid.Tables) [Uid.Store σ] where
  /-- The submission takes its next step, in an engine. -/
  | go (e : Engine σ)
  /-- The submission does not wait for room any longer. -/
  | giveUp

/-- A beat. -/
def beat (s : Ingest) : Beat σ → Ingest
  | .go e => s.step e
  | .giveUp => s.giveUp

/-- A submission of events, beat by beat. -/
def run (events : List Event) (beats : List (Beat σ)) : Ingest :=
  beats.foldl beat { stage := .routing events }

/-- The answer of a submission that has returned. -/
def answer? (s : Ingest) : Option (Except Fault IngestReport) :=
  match s.stage with
  | .done answer => some answer
  | _ => none

/-! ## Reading the record -/

/-- The events that mailboxes took. -/
def accepted (s : Ingest) : List Addressed := s.deeds.flatMap Deed.accepted

/-- The events that were handed back. -/
def back (s : Ingest) : List Addressed := s.deeds.flatMap Deed.back

/-- The events that were rejected. -/
def rejections (s : Ingest) : List BadEvent := s.deeds.flatMap Deed.rejections

/-- The events that are for a processor. -/
def routed (s : Ingest) : List Addressed := s.verdicts.flatMap Verdict.routed

/-- The events that are for no processor. -/
def unroutable (s : Ingest) : List Event := s.verdicts.flatMap Verdict.unroutable

/-- What a step does. -/
theorem step_leaves (e : Engine σ) (s : Ingest) :
    ∃ deed : Option Deed, (s.step e).deeds = s.deeds ++ deed.toList ∧
      Deed.Leaves e (s.act e) deed := by
  have hnone : ∀ deeds : List Deed, deeds = deeds ++ (none : Option Deed).toList := fun deeds =>
    (List.append_nil deeds).symm
  obtain ⟨stage, verdicts, report, deeds⟩ := s
  cases stage with
  | routing todo =>
    cases todo with
    | nil => exact ⟨none, hnone deeds, rfl⟩
    | cons event todo =>
      rw [step, act]
      dsimp only
      cases event.destination e.shared.registry with
      | ok id => exact ⟨none, hnone deeds, rfl⟩
      | error f => exact ⟨some (.rejected (badOf event f)), rfl, rfl⟩
  | checking todo =>
    cases todo with
    | nil => exact ⟨none, hnone deeds, rfl⟩
    | cons id todo =>
      rw [step, act]
      dsimp only
      split <;> exact ⟨none, hnone deeds, rfl⟩
  | asking todo =>
    cases todo with
    | nil => exact ⟨none, hnone deeds, rfl⟩
    | cons id todo =>
      rw [step, act]
      dsimp only
      cases hfound : (e.processor? id).bind fun p => p.openCrew?.map fun c => (p, c) with
      | none => exact ⟨some (.turnedAway id _), rfl, rfl, Engine.openCrew?_eq_none_iff.2 hfound⟩
      | some found => exact ⟨none, hnone deeds, rfl⟩
  | queueing id serial parts back todo =>
    cases parts with
    | nil => exact ⟨none, hnone deeds, rfl⟩
    | cons part parts =>
      obtain ⟨partition, events⟩ := part
      rw [step, act]
      dsimp only
      cases hd : e.deliver id serial partition (.events events) with
      | waits => exact ⟨none, hnone deeds, rfl⟩
      | taken e' => exact ⟨some (.queued ⟨id, serial, partition⟩ events), rfl, hd⟩
      | refused f => exact ⟨some (.returned ⟨id, serial, partition⟩ events), rfl, rfl, f, hd⟩
  | rejecting f back todo =>
    cases back with
    | nil => exact ⟨none, hnone deeds, rfl⟩
    | cons event back => exact ⟨some (.rejected (badOf event f)), rfl, rfl⟩
  | done answer => exact ⟨none, hnone deeds, rfl⟩

/-! ## Events by processor -/

theorem map_snd_mk (id : ProcessorId) (events : List Event) :
    (events.map (Prod.mk id)).map Prod.snd = events := by
  rw [List.map_map]
  exact List.map_id _

theorem routed_perm (verdicts : List Verdict) :
    ((verdicts.flatMap Verdict.routed).map Prod.snd ++ verdicts.flatMap Verdict.unroutable).Perm
      (verdicts.map Prod.fst) := by
  induction verdicts with
  | nil => exact .refl _
  | cons v verdicts ih =>
    obtain ⟨event, verdict⟩ := v
    cases verdict with
    | ok id => exact ih.cons event
    | error f => exact List.perm_middle.trans (ih.cons event)

theorem flatMap_bound (v : Verdict) :
    (ProcessorId.all.flatMap fun id => (v.bound id).map (Prod.mk id)) = v.routed := by
  obtain ⟨event, verdict⟩ := v
  cases verdict with
  | error f => rfl
  | ok j =>
    obtain ⟨kind, interval⟩ := j
    cases kind <;> cases interval <;> rfl

/-- Every event that is for a processor is among the events of one processor. -/
theorem bound_perm (verdicts : List Verdict) :
    (ProcessorId.all.flatMap fun id =>
      (verdicts.flatMap (Verdict.bound id)).map (Prod.mk id)).Perm
        (verdicts.flatMap Verdict.routed) := by
  induction verdicts with
  | nil => exact .of_eq (List.flatMap_eq_nil_iff.2 fun _ _ => rfl)
  | cons v verdicts ih =>
    have hsplit := List.flatMap_append_perm ProcessorId.all
      (fun id => (v.bound id).map (Prod.mk id)) fun id =>
        (verdicts.flatMap (Verdict.bound id)).map (Prod.mk id)
    rw [flatMap_bound] at hsplit
    simp only [List.flatMap_cons, List.map_append]
    exact hsplit.symm.trans (ih.append_left _)

/-- Processors without events may be left out. -/
theorem flatMap_targets (s : Ingest) :
    s.targets.flatMap s.share = ProcessorId.all.flatMap s.share := by
  rw [targets]
  induction ProcessorId.all with
  | nil => rfl
  | cons id ids ih =>
    cases hbound : (s.bound id).isEmpty with
    | true =>
      have hnil : s.bound id = [] := List.isEmpty_iff.1 hbound
      simp [share, hnil, ih]
    | false => simp [hbound, ih]

theorem targets_perm (s : Ingest) : (s.targets.flatMap s.share).Perm s.routed := by
  rw [flatMap_targets]
  exact bound_perm s.verdicts

/-! ## The books of a submission -/

/-- Events left to look up. -/
def unread (s : Ingest) : List Event :=
  match s.stage with
  | .routing todo => todo
  | _ => []

/-- Events left to queue. -/
def toQueue (s : Ingest) : List Addressed :=
  match s.stage with
  | .asking todo => todo.flatMap s.share
  | .queueing id _ parts _ todo =>
    (parts.flatMap Prod.snd).map (Prod.mk id) ++ todo.flatMap s.share
  | .rejecting _ _ todo => todo.flatMap s.share
  | .done (.ok _) => []
  | _ => s.routed

/-- Events that were handed back and are left to reject. -/
def toReject (s : Ingest) : List Event :=
  match s.stage with
  | .queueing _ _ _ back _ => back
  | .rejecting _ back _ => back
  | _ => []

/-- Whether no processor was asked for its crew. -/
def isEarly (s : Ingest) : Bool :=
  match s.stage with
  | .routing _ => true
  | .checking _ => true
  | .done (.error _) => true
  | _ => false

/-- The report is right, up to the processor that the submission is at. -/
def Counted (s : Ingest) : Prop :=
  match s.stage with
  | .queueing id _ parts back _ =>
    s.accepted.length + (parts.flatMap Prod.snd).length + back.length =
        s.report.accepted + (s.bound id).length ∧
      s.report.accepted ≤ s.accepted.length ∧ s.report.rejected = s.rejections.length
  | .rejecting _ back _ => s.report.accepted = s.accepted.length ∧
    s.report.rejected = s.rejections.length + back.length
  | .done (.ok report) =>
    report.accepted = s.accepted.length ∧ report.rejected = s.rejections.length
  | _ => s.report.accepted = s.accepted.length ∧ s.report.rejected = s.rejections.length

/-- A partition of a processor with all events for it, in order. -/
def Batch (s : Ingest) (seen : Engine σ → Prop) (id : ProcessorId) (part : Nat × List Event) :
    Prop :=
  ∃ q e, seen e ∧ e.partitioner? id = some q ∧
    part.2 = (s.bound id).filter (q.partitionOfEvent · == part.1)

/-- What a deed is about is what the submission is about. -/
def Does (s : Ingest) (seen : Engine σ → Prop) : Deed → Prop
  | .queued slot events => s.Batch seen slot.processor (slot.partition, events)
  | .returned slot events => s.Batch seen slot.processor (slot.partition, events)
  | .turnedAway id events => events = s.bound id
  | .rejected bad => bad.processor = Engine.pipelineName

/-- The record of a submission that saw some engines fits its events. -/
structure Fits (events : List Event) (seen : Engine σ → Prop) (s : Ingest) : Prop where
  looked : s.verdicts.map Prod.fst ++ s.unread = events
  resolved : ∀ v ∈ s.verdicts, ∃ e, seen e ∧ v.2 = v.1.destination e.shared.registry
  balance : (s.accepted ++ s.back ++ s.toQueue).Perm s.routed
  refused : s.rejections.map BadEvent.event ++ s.toReject = s.unroutable ++ s.back.map Prod.snd
  counted : s.Counted
  deeds : ∀ d ∈ s.deeds, s.Does seen d
  parts {id : ProcessorId} {serial : Nat} {parts : List (Nat × List Event)} {back : List Event}
    {todo : List ProcessorId} : s.stage = .queueing id serial parts back todo →
    ∀ part ∈ parts, s.Batch seen id part
  early : s.isEarly = true → ∀ d ∈ s.deeds, ∃ bad, d = .rejected bad

variable {events : List Event} {seen seen' : Engine σ → Prop} {s s' : Ingest} {e : Engine σ}

/-- A submission that has not done anything yet. -/
theorem fits_begin (events : List Event) (seen : Engine σ → Prop) :
    Fits events seen { stage := .routing events } where
  looked := rfl
  resolved _ hv := nomatch hv
  balance := .refl _
  refused := rfl
  counted := ⟨rfl, rfl⟩
  deeds _ hd := nomatch hd
  parts hstage := nomatch hstage
  early _ _ hd := nomatch hd

theorem Batch.mono {id : ProcessorId} {part : Nat × List Event} (hseen : ∀ e, seen e → seen' e)
    (h : s.Batch seen id part) : s.Batch seen' id part := by
  obtain ⟨q, e, he, hq, hpart⟩ := h
  exact ⟨q, e, hseen e he, hq, hpart⟩

/-- A submission may have seen more engines. -/
theorem Fits.mono (hseen : ∀ e, seen e → seen' e) (h : s.Fits events seen) :
    s.Fits events seen' where
  looked := h.looked
  resolved v hv := by
    obtain ⟨e, he, hverdict⟩ := h.resolved v hv
    exact ⟨e, hseen e he, hverdict⟩
  balance := h.balance
  refused := h.refused
  counted := h.counted
  deeds d hd := by
    have hdoes := h.deeds d hd
    cases d with
    | queued slot events => exact hdoes.mono hseen
    | returned slot events => exact hdoes.mono hseen
    | turnedAway id events => exact hdoes
    | rejected bad => exact hdoes
  parts hstage part hpart := (h.parts hstage part hpart).mono hseen
  early := h.early

theorem batch_congr (h : s'.verdicts = s.verdicts) {id : ProcessorId} {part : Nat × List Event} :
    s'.Batch seen id part ↔ s.Batch seen id part := by
  rw [Batch, Batch, bound, bound, h]

theorem does_congr (h : s'.verdicts = s.verdicts) {d : Deed} : s'.Does seen d ↔ s.Does seen d := by
  cases d with
  | queued slot events => exact batch_congr h
  | returned slot events => exact batch_congr h
  | turnedAway id events =>
    rw [Does, Does, bound, bound, h]
  | rejected bad => exact Iff.rfl

/-- A submission goes on, with or without a deed, after its events are looked up. -/
theorem Fits.goOn {d : Option Deed} (h : s.Fits events seen)
    (hverdicts : s'.verdicts = s.verdicts) (hdeeds : s'.deeds = s.deeds ++ d.toList)
    (hunread : s'.unread = s.unread)
    (hqueue : (d.toList.flatMap Deed.accepted ++ d.toList.flatMap Deed.back ++ s'.toQueue).Perm
      s.toQueue)
    (hreject : (d.toList.flatMap Deed.rejections).map BadEvent.event ++ s'.toReject =
      s.toReject ++ (d.toList.flatMap Deed.back).map Prod.snd)
    (hcounted : s'.Counted) (hdeed : ∀ x ∈ d, s.Does seen x)
    (hparts : ∀ id serial parts back todo, s'.stage = .queueing id serial parts back todo →
      ∀ part ∈ parts, s.Batch seen id part)
    (hearly : s'.isEarly = true → s.isEarly = true ∧ ∀ x ∈ d, ∃ bad, x = .rejected bad) :
    s'.Fits events seen where
  looked := by
    rw [hverdicts, hunread]
    exact h.looked
  resolved := hverdicts ▸ h.resolved
  balance := by
    have hrouted : s'.routed = s.routed := by rw [routed, routed, hverdicts]
    rw [hrouted]
    refine List.Perm.trans ?_ h.balance
    rw [accepted, back, hdeeds, List.flatMap_append, List.flatMap_append]
    refine List.Perm.trans ?_ (hqueue.append_left (s.accepted ++ s.back))
    classical
    refine List.perm_iff_count.2 fun x => ?_
    simp only [accepted, back, List.count_append]
    omega
  refused := by
    have hunroutable : s'.unroutable = s.unroutable := by rw [unroutable, unroutable, hverdicts]
    rw [hunroutable, rejections, back, hdeeds, List.flatMap_append, List.map_append,
      List.flatMap_append, List.map_append, List.append_assoc, hreject, ← List.append_assoc,
      ← List.append_assoc]
    exact congrArg (· ++ _) h.refused
  counted := hcounted
  deeds x hx := by
    rw [does_congr hverdicts]
    rw [hdeeds] at hx
    exact (List.mem_append.1 hx).elim (h.deeds x) fun hx => hdeed x (Option.mem_toList.1 hx)
  parts hstage part hpart := (batch_congr hverdicts).2 (hparts _ _ _ _ _ hstage part hpart)
  early hs' x hx := by
    obtain ⟨hs, hnew⟩ := hearly hs'
    rw [hdeeds] at hx
    exact (List.mem_append.1 hx).elim (h.early hs x) fun hx => hnew x (Option.mem_toList.1 hx)

/-- A submission goes on without a deed. -/
theorem Fits.moveOn (h : s.Fits events seen) (hverdicts : s'.verdicts = s.verdicts)
    (hdeeds : s'.deeds = s.deeds) (hunread : s'.unread = s.unread)
    (hqueue : s'.toQueue.Perm s.toQueue) (hreject : s'.toReject = s.toReject)
    (hcounted : s'.Counted)
    (hparts : ∀ id serial parts back todo, s'.stage = .queueing id serial parts back todo →
      ∀ part ∈ parts, s.Batch seen id part)
    (hearly : s'.isEarly = true → s.isEarly = true) : s'.Fits events seen :=
  h.goOn (d := none) hverdicts (hdeeds.trans (List.append_nil _).symm) hunread hqueue
    (hreject.trans (List.append_nil _).symm) hcounted (fun _ hx => nomatch hx) hparts
    fun hs' => ⟨hearly hs', fun _ hx => nomatch hx⟩

section

variable {id : ProcessorId} {serial : Nat} {parts : List (Nat × List Event)} {f : Fault}
  {part : Nat × List Event} {event : Event} {back todo : List Event} {ids : List ProcessorId}
  (h : s.Fits events seen)
include h

/-- An event is looked up. -/
theorem Fits.routing (hstage : s.stage = .routing todo) (he : seen e) :
    (s.step e).Fits events seen := by
  have hlooked := h.looked
  have hrefused := h.refused
  have hcounted := h.counted
  have hearly := h.early (by rw [isEarly, hstage])
  -- Up to here nothing is queued or handed back.
  have haccepted : s.deeds.flatMap Deed.accepted = [] := by
    refine List.flatMap_eq_nil_iff.2 fun d hd => ?_
    obtain ⟨bad, rfl⟩ := hearly d hd
    rfl
  have hback : s.deeds.flatMap Deed.back = [] := by
    refine List.flatMap_eq_nil_iff.2 fun d hd => ?_
    obtain ⟨bad, rfl⟩ := hearly d hd
    rfl
  rw [unread, hstage] at hlooked
  rw [toReject, hstage, Ingest.back, hback, List.map_nil, List.append_nil,
    List.append_nil] at hrefused
  rw [Counted, hstage] at hcounted
  rw [step, hstage]
  cases todo with
  | nil =>
    have hunread : s.unread = [] := by rw [unread, hstage]
    have hreject : s.toReject = [] := by rw [toReject, hstage]
    have hqueue : s.toQueue = s.routed := by rw [toQueue, hstage]
    exact h.moveOn rfl rfl hunread.symm (.of_eq hqueue.symm) hreject.symm hcounted
      (fun _ _ _ _ _ hstage => nomatch hstage) fun _ => by rw [isEarly, hstage]
  | cons event todo =>
    have hresolved := List.forall_mem_append.2 ⟨h.resolved, List.forall_mem_singleton.2
      ⟨e, he, (rfl : (event, event.destination e.shared.registry).2 = _)⟩⟩
    dsimp only
    cases hverdict : event.destination e.shared.registry with
    | ok id =>
      rw [hverdict] at hresolved
      refine ⟨?_, hresolved, ?_, ?_, hcounted, fun d hd => ?_, fun hstage => ?_, fun _ => hearly⟩
      · simpa [unread] using hlooked
      · simp [accepted, Ingest.back, toQueue, haccepted, hback]
      · simpa [rejections, toReject, unroutable, Ingest.back, hback, Verdict.unroutable] using
          hrefused
      · obtain ⟨bad, rfl⟩ := hearly d hd
        exact h.deeds _ hd
      · cases hstage
    | error f =>
      rw [hverdict] at hresolved
      refine ⟨?_, hresolved, ?_, ?_, ?_, fun d hd => ?_, fun hstage => ?_, fun _ d hd => ?_⟩
      · simpa [unread] using hlooked
      · simp [accepted, Ingest.back, toQueue, haccepted, hback, Deed.accepted, Deed.back]
      · rw [rejections, unroutable] at hrefused
        simp [rejections, toReject, unroutable, Ingest.back, hback, Verdict.unroutable,
          Deed.rejections, Deed.back, badOf, hrefused]
      · simpa [Counted, accepted, rejections, Deed.accepted, Deed.rejections] using hcounted
      · rcases List.mem_append.1 hd with hd | hd
        · obtain ⟨bad, rfl⟩ := hearly d hd
          exact h.deeds _ hd
        · obtain rfl := List.mem_singleton.1 hd
          rfl
      · cases hstage
      · rcases List.mem_append.1 hd with hd | hd
        · exact hearly d hd
        · exact ⟨_, List.mem_singleton.1 hd⟩

/-- A processor that events are for is looked at. -/
theorem Fits.checking (hstage : s.stage = .checking ids) (e : Engine σ) :
    (s.step e).Fits events seen := by
  have hcounted := h.counted
  rw [Counted, hstage] at hcounted
  have hunread : s.unread = [] := by rw [unread, hstage]
  have hreject : s.toReject = [] := by rw [toReject, hstage]
  have hqueue : s.toQueue = s.routed := by rw [toQueue, hstage]
  have hearly : s.isEarly = true := by rw [isEarly, hstage]
  rw [step, hstage]
  cases ids with
  | nil =>
    exact h.moveOn rfl rfl hunread.symm (hqueue ▸ s.targets_perm) hreject.symm hcounted
      (fun _ _ _ _ _ hstage => nomatch hstage) fun _ => hearly
  | cons id ids =>
    dsimp only
    split
    all_goals
      exact h.moveOn rfl rfl hunread.symm (.of_eq hqueue.symm) hreject.symm hcounted
        (fun _ _ _ _ _ hstage => nomatch hstage) fun _ => hearly

/-- A processor is asked for its crew. -/
theorem Fits.asking (hstage : s.stage = .asking ids) (he : seen e) :
    (s.step e).Fits events seen := by
  have hcounted := h.counted
  rw [Counted, hstage] at hcounted
  have hunread : s.unread = [] := by rw [unread, hstage]
  have hreject : s.toReject = [] := by rw [toReject, hstage]
  have hqueue : s.toQueue = ids.flatMap s.share := by rw [toQueue, hstage]
  rw [step, hstage]
  cases ids with
  | nil =>
    exact h.moveOn rfl rfl hunread.symm (.of_eq hqueue.symm) hreject.symm hcounted
      (fun _ _ _ _ _ hstage => nomatch hstage) fun hs => nomatch hs
  | cons id ids =>
    dsimp only
    split
    · refine h.goOn (d := some (.turnedAway id (s.bound id))) rfl rfl hunread.symm ?_ ?_ ?_
        (fun x hx => ?_) (fun _ _ _ _ _ hstage => nomatch hstage) fun hs => nomatch hs
      · rw [hqueue]
        exact .of_eq (congrArg (· ++ _) (List.append_nil _))
      · rw [hreject]
        simp [Deed.rejections, Deed.back, toReject, map_snd_mk, -List.map_map]
      · rw [accepted, rejections] at hcounted
        simp [Counted, accepted, rejections, Deed.accepted, Deed.rejections, hcounted]
      · cases hx
        rfl
    · next p crew hfound =>
      obtain ⟨p', hp, hcrew⟩ := Option.bind_eq_some_iff.1 hfound
      obtain ⟨_, _, heq⟩ := Option.map_eq_some_iff.1 hcrew
      cases heq
      have hsplit := Partitioner.perm_spread p.partitioner.partitionOfEvent (s.bound id)
      refine h.moveOn rfl rfl hunread.symm ?_ hreject.symm ?_
        (fun _ _ _ _ _ hstage part hpart => ?_) fun hs => nomatch hs
      · rw [hqueue]
        exact (hsplit.map _).append_right _
      · refine ⟨?_, hcounted.1.le, hcounted.2⟩
        rw [List.length_nil, Nat.add_zero]
        exact congrArg₂ (· + ·) hcounted.1.symm hsplit.length_eq
      · cases hstage
        exact ⟨p.partitioner, e, he, by rw [Engine.partitioner?, hp]; rfl,
          Partitioner.eq_filter_of_mem_spread hpart⟩

/-- A partition is brought its events, and takes them or hands them back. -/
theorem Fits.brought {d : Deed} {back' : List Event}
    (hstage : s.stage = .queueing id serial (part :: parts) back ids)
    (hmoved : d.accepted ++ d.back = part.2.map (Prod.mk id)) (hnone : d.rejections = [])
    (hback : back' = back ++ d.back.map Prod.snd) (hdoes : s.Batch seen id part → s.Does seen d) :
    Fits events seen
      { s with stage := .queueing id serial parts back' ids, deeds := s.deeds ++ [d] } := by
  obtain ⟨hpart, hparts⟩ := List.forall_mem_cons.1 (h.parts hstage)
  have hcounted := h.counted
  rw [Counted, hstage] at hcounted
  have hunread : s.unread = [] := by rw [unread, hstage]
  have hreject : s.toReject = back := by rw [toReject, hstage]
  have hqueue : s.toQueue =
      ((part :: parts).flatMap Prod.snd).map (Prod.mk id) ++ ids.flatMap s.share := by
    rw [toQueue, hstage]
  refine h.goOn (d := some d) rfl rfl hunread.symm ?_ ?_ ?_ (fun x hx => ?_)
    (fun _ _ _ _ _ hstage => ?_) fun hs => nomatch hs
  · simp only [Option.toList_some, List.flatMap_singleton]
    rw [hmoved, hqueue, List.flatMap_cons, List.map_append, List.append_assoc]
    exact .refl _
  · simp only [Option.toList_some, List.flatMap_singleton]
    rw [hnone, hreject, ← hback]
    rfl
  · have hlength := congrArg List.length hmoved
    rw [List.length_append, List.length_map] at hlength
    simp only [accepted, rejections, bound, List.flatMap_cons, List.length_append] at hcounted
    simp only [Counted, accepted, rejections, bound, List.flatMap_append, List.length_append,
      List.flatMap_singleton, hnone, hback, List.length_map, List.length_nil]
    omega
  · cases hx
    exact hdoes hpart
  · cases hstage
    exact hparts

/-- A partition hands its events back. -/
theorem Fits.returned (hstage : s.stage = .queueing id serial (part :: parts) back ids) :
    Fits events seen
      { s with
        stage := .queueing id serial parts (back ++ part.2) ids
        deeds := s.deeds ++ [.returned ⟨id, serial, part.1⟩ part.2] } :=
  h.brought hstage rfl rfl (congrArg (back ++ ·) (map_snd_mk id part.2).symm) fun hpart => hpart

/-- The next partition of a processor. -/
theorem Fits.queueing (hstage : s.stage = .queueing id serial parts back ids) (e : Engine σ) :
    (s.step e).Fits events seen := by
  cases parts with
  | nil =>
    have hcounted := h.counted
    rw [Counted, hstage] at hcounted
    have hunread : s.unread = [] := by rw [unread, hstage]
    have hreject : s.toReject = back := by rw [toReject, hstage]
    have hqueue : s.toQueue = ids.flatMap s.share := by
      rw [toQueue, hstage]
      rfl
    rw [step, hstage]
    refine h.moveOn rfl rfl hunread.symm (.of_eq hqueue.symm) hreject.symm ?_
      (fun _ _ _ _ _ hstage => nomatch hstage) fun hs => nomatch hs
    simp only [accepted, rejections, List.flatMap_nil, List.length_nil] at hcounted
    simp only [Counted, accepted, rejections]
    omega
  | cons part parts =>
    have hback := h.returned hstage
    have htaken := h.brought (d := .queued ⟨id, serial, part.1⟩ part.2) hstage (List.append_nil _)
      rfl (List.append_nil back).symm fun hpart => hpart
    obtain ⟨partition, events⟩ := part
    rw [step, hstage]
    dsimp only
    cases e.deliver id serial partition (.events events) with
    | waits => exact h
    | refused f => exact hback
    | taken e' => exact htaken

/-- An event that was handed back is rejected. -/
theorem Fits.rejecting (hstage : s.stage = .rejecting f back ids) (e : Engine σ) :
    (s.step e).Fits events seen := by
  have hcounted := h.counted
  rw [Counted, hstage] at hcounted
  have hunread : s.unread = [] := by rw [unread, hstage]
  have hreject : s.toReject = back := by rw [toReject, hstage]
  have hqueue : s.toQueue = ids.flatMap s.share := by rw [toQueue, hstage]
  rw [step, hstage]
  cases back with
  | nil =>
    exact h.moveOn rfl rfl hunread.symm (.of_eq hqueue.symm) hreject.symm hcounted
      (fun _ _ _ _ _ hstage => nomatch hstage) fun hs => nomatch hs
  | cons event back =>
    refine h.goOn (d := some (.rejected (badOf event f))) rfl rfl hunread.symm
      (.of_eq hqueue.symm) ?_ ?_ (fun x hx => ?_) (fun _ _ _ _ _ hstage => nomatch hstage)
      fun hs => nomatch hs
    · rw [hreject]
      exact (List.append_nil _).symm
    · simp only [accepted, rejections, List.length_cons] at hcounted
      simp only [Counted, accepted, rejections, List.flatMap_append, List.length_append]
      simp only [List.flatMap_singleton, Deed.accepted, Deed.rejections, List.length_singleton,
        List.length_nil]
      omega
    · cases hx
      rfl

/-- Every step keeps the record right. -/
theorem Fits.step (he : seen e) : (s.step e).Fits events seen := by
  cases hstage : s.stage with
  | routing todo => exact h.routing hstage he
  | checking todo => exact h.checking hstage e
  | asking todo => exact h.asking hstage he
  | queueing id serial parts back todo => exact h.queueing hstage e
  | rejecting f back todo => exact h.rejecting hstage e
  | done answer =>
    rw [Ingest.step, hstage]
    exact h

/-- Giving up keeps the record right. -/
theorem Fits.giveUp : s.giveUp.Fits events seen := by
  rw [Ingest.giveUp]
  split
  · next hstage => exact h.returned hstage
  · exact h

end

/-- The record fits the events throughout a run. -/
theorem run_fits (events : List Event) (beats : List (Beat σ)) :
    (run events beats).Fits events fun e => .go e ∈ beats := by
  induction beats using List.reverseRecOn with
  | nil => exact fits_begin events _
  | append_singleton beats b ih =>
    have h : (run events beats).Fits events fun e => .go e ∈ beats ++ [b] :=
      ih.mono fun e he => List.mem_append_left _ he
    rw [run, List.foldl_append]
    cases b with
    | go e => exact h.step (List.mem_append_right _ List.mem_cons_self)
    | giveUp => exact h.giveUp

end Ingest

end StatRollup
