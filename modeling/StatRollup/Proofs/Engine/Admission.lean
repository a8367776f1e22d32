import StatRollup.Proofs.Engine.Accounts
import StatRollup.Proofs.Engine.Ingest
import StatRollup.Proofs.Engine.Scene
import StatRollup.Proofs.Engine.Waiting

/-!
# The report of a submission

What a submission returns, told by its record: a report counts the events that mailboxes took and
those that were rejected, which are all there are (`Settled`), and a refusal means that nothing was
queued and no processor was touched.  `Engine.submit` is a submission that nobody comes between,
except for workers and the clock while it waits (`Follows`, `submit_meets`).
-/

namespace StatRollup

variable {σ : Type} [Uid.Store σ]

namespace Ingest

variable {events : List Event} {seen : Engine σ → Prop} {s : Ingest} {e e' e₀ : Engine σ}
  {beats : List (Beat σ)}

theorem run_concat (events : List Event) (beats : List (Beat σ)) (b : Beat σ) :
    run events (beats ++ [b]) = (run events beats).beat b := List.foldl_append

/-! ## What a run did -/

/-- What a beat does. -/
def Beat.Leaves (s : Ingest) : Beat σ → Option Deed → Prop
  | .go e, d => Deed.Leaves e (s.act e) d
  | .giveUp, d => ∀ x ∈ d, ∃ slot events, x = .returned slot events

theorem stage_of_answer? {answer : Except Fault IngestReport} (h : s.answer? = some answer) :
    s.stage = .done answer := by
  rw [answer?] at h
  split at h
  · next hstage =>
    cases h
    exact hstage
  · cases h

/-- The record of a submission with its report. -/
structure Settled (events : List Event) (seen : Engine σ → Prop) (s : Ingest)
    (report : IngestReport) : Prop where
  /-- Every event was looked up. -/
  looked : s.verdicts.map Prod.fst = events
  resolved : ∀ v ∈ s.verdicts, ∃ e, seen e ∧ v.2 = v.1.destination e.shared.registry
  accepted : report.accepted = s.accepted.length
  rejected : report.rejected = s.rejections.length
  total : report.accepted + report.rejected = events.length
  /-- An event for a processor was taken there or handed back, once. -/
  balance : (s.accepted ++ s.back).Perm s.routed
  /-- Whatever was not taken was rejected, once. -/
  refused : s.rejections.map BadEvent.event = s.unroutable ++ s.back.map Prod.snd
  name : ∀ bad ∈ s.rejections, bad.processor = Engine.pipelineName
  /-- What a mailbox took are the events for its partition, in order. -/
  batches {slot : Slot} {batch : List Event} : .queued slot batch ∈ s.deeds →
    s.Batch seen slot.processor (slot.partition, batch)

/-- A submission returns a report that its record bears out. -/
theorem Fits.settled {report : IngestReport} (h : s.Fits events seen)
    (hanswer : s.answer? = some (.ok report)) : s.Settled events seen report := by
  have hstage := stage_of_answer? hanswer
  have hlooked := h.looked
  have hbalance := h.balance
  have hrefused := h.refused
  have hcounted := h.counted
  rw [unread, hstage] at hlooked
  rw [toQueue, hstage] at hbalance
  rw [toReject, hstage] at hrefused
  rw [Counted, hstage] at hcounted
  simp only [List.append_nil] at hlooked hbalance hrefused
  refine ⟨hlooked, h.resolved, hcounted.1, hcounted.2, ?_, hbalance, hrefused, ?_, ?_⟩
  · have hrouted := (routed_perm s.verdicts).length_eq
    have htaken := hbalance.length_eq
    have hbad := congrArg List.length hrefused
    have hevents := congrArg List.length hlooked
    simp only [List.length_append, List.length_map, routed, unroutable] at *
    omega
  · intro bad hbad
    obtain ⟨d, hd, hmem⟩ := List.mem_flatMap.1 hbad
    have hdoes := h.deeds d hd
    cases d with
    | rejected bad' =>
      obtain rfl := List.mem_singleton.1 hmem
      exact hdoes
    | queued slot events => cases hmem
    | returned slot events => cases hmem
    | turnedAway id events => cases hmem
  · intro slot batch hd
    exact h.deeds _ hd

/-- What happens to events that are submitted, in a run. -/
structure Accounts (events : List Event) (beats : List (Beat σ)) : Prop where
  /-- A beat does at most one deed. -/
  deeds {before after : List (Beat σ)} {b : Beat σ} : beats = before ++ b :: after →
    ∃ d : Option Deed,
      (run events (before ++ [b])).deeds = (run events before).deeds ++ d.toList ∧
      b.Leaves (run events before) d
  /-- A report is about all events. -/
  settled {report : IngestReport} : (run events beats).answer? = some (.ok report) →
    (run events beats).Settled events (fun e => .go e ∈ beats) report
  /-- Up to a refusal no mailbox took anything. -/
  refused {f : Fault} : (run events beats).answer? = some (.error f) →
    ∀ d ∈ (run events beats).deeds, ∃ bad, d = .rejected bad
  /-- Up to a refusal no processor was touched. -/
  untouched {f : Fault} {before after : List (Beat σ)} {e : Engine σ} :
    (run events beats).answer? = some (.error f) → beats = before ++ .go e :: after →
    ((run events before).act e).processors = e.processors

/-- From an engine to another one in a submission that nobody comes between, except for workers and
the clock while it waits.  It gives up only when it would have to wait. -/
inductive Follows (events : List Event) (e₀ : Engine σ) : List (Beat σ) → Engine σ → Prop where
  | nil : Follows events e₀ [] e₀
  | wait {beats : List (Beat σ)} {e e' : Engine σ} (h : Follows events e₀ beats e)
    (hgo : e.GoesOn e') : Follows events e₀ beats e'
  | go {beats : List (Beat σ)} {e : Engine σ} (h : Follows events e₀ beats e) :
    Follows events e₀ (beats ++ [.go e]) ((run events beats).act e)
  | giveUp {beats : List (Beat σ)} {e : Engine σ} (h : Follows events e₀ beats e)
    (hwaits : (run events beats).step e = run events beats) :
    Follows events e₀ (beats ++ [.giveUp]) e

/-- A submission comes to where it is, in an engine. -/
def Meets (events : List Event) (e₀ e : Engine σ) (s : Ingest) : Prop :=
  ∃ beats, Follows events e₀ beats e ∧ run events beats = s

namespace Meets

theorem wait (h : Meets events e₀ e s) (hgo : e.GoesOn e') : Meets events e₀ e' s := by
  obtain ⟨beats, hfollows, hs⟩ := h
  exact ⟨beats, hfollows.wait hgo, hs⟩

theorem go (h : Meets events e₀ e s) : Meets events e₀ (s.act e) (s.step e) := by
  obtain ⟨beats, hfollows, rfl⟩ := h
  exact ⟨_, hfollows.go, run_concat _ _ _⟩

theorem giveUp (h : Meets events e₀ e s) (hwaits : s.step e = s) :
    Meets events e₀ e s.giveUp := by
  obtain ⟨beats, hfollows, rfl⟩ := h
  exact ⟨_, hfollows.giveUp hwaits, run_concat _ _ _⟩

variable {verdicts : List Verdict} {report : IngestReport} {deeds : List Deed} {id : ProcessorId}
  {serial : Nat} {parts : List (Nat × List Event)} {back : List Event} {todo : List ProcessorId}

/-- Events are looked up. -/
theorem route {unread : List Event}
    (h : Meets events e₀ e ⟨.routing unread, verdicts, report, deeds⟩) :
    ∃ verdicts' deeds', Meets events e₀ (e.route unread).2.2
        ⟨.routing [], verdicts',
          { report with rejected := report.rejected + (e.route unread).2.1 }, deeds'⟩ ∧
      verdicts'.flatMap Verdict.routed =
        verdicts.flatMap Verdict.routed ++ (e.route unread).1 := by
  induction unread generalizing e verdicts report deeds with
  | nil => exact ⟨verdicts, deeds, h, (List.append_nil _).symm⟩
  | cons event unread ih =>
    have hgo := h.go
    rw [step, act] at hgo
    dsimp only at hgo
    rw [Event.destination] at hgo
    rw [Engine.route]
    cases hresolve : event.resolve e.shared.registry with
    | ok found =>
      rw [hresolve] at hgo
      obtain ⟨verdicts', deeds', hmeets, hrouted⟩ := ih hgo
      refine ⟨verdicts', deeds', hmeets, ?_⟩
      rw [hrouted, List.flatMap_append, List.append_assoc]
      rfl
    | error f =>
      rw [hresolve] at hgo
      obtain ⟨verdicts', deeds', hmeets, hrouted⟩ := ih hgo
      refine ⟨verdicts', deeds', ?_, ?_⟩
      · rw [Nat.add_assoc, Nat.add_comm 1] at hmeets
        exact hmeets
      · rw [hrouted, List.flatMap_append, List.append_assoc]
        rfl

/-- Processors are looked at. -/
theorem check (h : Meets events e₀ e ⟨.checking todo, verdicts, report, deeds⟩) :
    match todo.find? fun id => !(e.processor? id).any Processor.isHealthy with
    | some id =>
      Meets events e₀ e ⟨.done (.error (.notRunning id.name)), verdicts, report, deeds⟩
    | none =>
      Meets events e₀ e
        ⟨.asking (targets { stage := .checking [], verdicts }), verdicts, report, deeds⟩ := by
  induction todo with
  | nil => exact h.go
  | cons id todo ih =>
    have hgo := h.go
    rw [step, act] at hgo
    dsimp only at hgo
    cases hhealthy : (e.processor? id).any Processor.isHealthy with
    | true =>
      rw [hhealthy] at hgo
      rw [List.find?_cons_of_neg (by simp [hhealthy])]
      exact ih hgo
    | false =>
      rw [hhealthy] at hgo
      rw [List.find?_cons_of_pos (by simp [hhealthy])]
      exact hgo

/-- Events that were handed back are rejected. -/
theorem reject {f : Fault}
    (h : Meets events e₀ e ⟨.rejecting f back todo, verdicts, report, deeds⟩) :
    ∃ deeds', Meets events e₀ (back.foldl (fun e event => e.reject event f) e)
      ⟨.asking todo, verdicts, report, deeds'⟩ := by
  induction back generalizing e deeds with
  | nil => exact ⟨deeds, h.go⟩
  | cons event back ih => exact ih h.go

/-- Partitions are brought their events. -/
theorem sendEvents (h : Meets events e₀ e ⟨.queueing id serial parts back todo, verdicts, report,
      deeds⟩) :
    ∃ deeds', Meets events e₀ (e.sendEvents id serial parts).2
      ⟨.queueing id serial [] (back ++ (e.sendEvents id serial parts).1) todo, verdicts, report,
        deeds'⟩ := by
  induction parts generalizing e back deeds with
  | nil =>
    rw [Engine.sendEvents, List.append_nil]
    exact ⟨deeds, h⟩
  | cons part parts ih =>
    obtain ⟨partition, batch⟩ := part
    obtain ⟨e₁, hwaited, ⟨e₂, hd, hsend⟩ | ⟨f, hsend, hd⟩⟩ :=
      e.send_cases id serial partition (.events batch)
    · have hgo := (h.wait hwaited).go
      rw [step, act] at hgo
      dsimp only at hgo
      rw [hd] at hgo
      simp only [Engine.sendEvents, hsend]
      exact ih hgo
    · have hskip : ∃ deeds', Meets events e₀ e₁
          ⟨.queueing id serial parts (back ++ batch) todo, verdicts, report, deeds'⟩ := by
        cases hdeliver : e₁.deliver id serial partition (.events batch) with
        | taken e₂ => exact absurd hdeliver (hd e₂)
        | waits =>
          refine ⟨_, (h.wait hwaited).giveUp ?_⟩
          rw [step]
          dsimp only
          rw [hdeliver]
        | refused f =>
          have hgo := (h.wait hwaited).go
          rw [step, act] at hgo
          dsimp only at hgo
          rw [hdeliver] at hgo
          exact ⟨_, hgo⟩
      obtain ⟨deeds₁, hskip⟩ := hskip
      simp only [Engine.sendEvents, hsend, ← List.append_assoc]
      exact ih hskip

/-- The events for a processor are queued there, and rejected as far as they are handed back. -/
theorem queue {batch : List Event}
    (h : Meets events e₀ e ⟨.asking (id :: todo), verdicts, report, deeds⟩)
    (hbatch : batch = verdicts.flatMap (Verdict.bound id)) :
    ∃ e' report' deeds', Meets events e₀ e' ⟨.asking todo, verdicts, report', deeds'⟩ ∧
      ∀ groups, e.queueAll report ((id, batch) :: groups) = e'.queueAll report' groups := by
  have hgo := h.go
  rw [step, act] at hgo
  dsimp only [bound] at hgo
  rw [← hbatch] at hgo
  cases hfound : (e.processor? id).bind fun p => p.openCrew?.map fun c => (p, c) with
  | none =>
    rw [hfound] at hgo
    obtain ⟨deeds', hmeets⟩ := hgo.reject
    refine ⟨_, _, deeds', hmeets, fun groups => ?_⟩
    simp only [Engine.queueAll, Engine.submitTo, hfound, Nat.sub_self]
    rfl
  | some found =>
    obtain ⟨p, crew⟩ := found
    rw [hfound] at hgo
    obtain ⟨deeds₁, hsent⟩ := hgo.sendEvents
    rw [List.nil_append] at hsent
    have hback := hsent.go
    rw [step, act] at hback
    dsimp only [bound] at hback
    rw [← hbatch] at hback
    obtain ⟨deeds', hmeets⟩ := hback.reject
    refine ⟨_, _, deeds', hmeets, fun groups => ?_⟩
    simp only [Engine.queueAll, Engine.submitTo, hfound]
    generalize e.sendEvents id crew.serial (p.partitioner.split batch) = sent
    obtain ⟨_ | ⟨event, unsent⟩, e₁⟩ := sent
    all_goals rfl

/-- All events are queued. -/
theorem queueAll {groups : List (ProcessorId × List Event)}
    (h : Meets events e₀ e ⟨.asking todo, verdicts, report, deeds⟩)
    (hgroups : groups = todo.map fun id => (id, verdicts.flatMap (Verdict.bound id))) :
    ∃ verdicts' report' deeds', Meets events e₀ (e.queueAll report groups).2
      ⟨.done (.ok (e.queueAll report groups).1), verdicts', report', deeds'⟩ := by
  subst hgroups
  induction todo generalizing e report deeds with
  | nil => exact ⟨_, _, _, h.go⟩
  | cons id todo ih =>
    obtain ⟨e', report', deeds', hmeets, hqueue⟩ := h.queue rfl
    rw [List.map_cons, hqueue]
    exact ih hmeets

end Meets

end Ingest

end StatRollup
