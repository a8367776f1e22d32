import StatRollup.Proofs.Engine.Admission

/-!
# Refused submissions

A submission rejects the events that it cannot route while it looks them up, and only then does it
look at the processors.  So a refusal comes too late for the bad events: each unroutable event has
been rejected, and is rejected again each time that the same events are submitted again.

`opens_run` carries this through any interleaving: what a submission rejects begins with what it
could not route, and up to a refusal there is nothing else.
-/

namespace StatRollup

variable {σ : Type} [Uid.Store σ]

/-- The bad event that looking up an event gives, if it is for no processor. -/
def Verdict.bad? : Verdict → Option BadEvent
  | (_, .ok _) => none
  | (event, .error f) => some (Ingest.badOf event f)

namespace Engine

/-- The events that are for no processor under some definitions, as bad events. -/
def unroutable (registry : Registry) (events : List Event) : List BadEvent :=
  events.filterMap fun event => Verdict.bad? (event, event.destination registry)

/-- The engine with more bad events. -/
def withBad (e : Engine σ) (bads : List BadEvent) : Engine σ :=
  { e with shared := { e.shared with badEvents := e.shared.badEvents.addAll bads } }

variable {e : Engine σ} {events : List Event}

/-- Looking up events changes nothing but the bad events. -/
theorem route_engine (e : Engine σ) (events : List Event) :
    (e.route events).2.2 = e.withBad (unroutable e.shared.registry events) := by
  induction events generalizing e with
  | nil => rfl
  | cons event events ih =>
    rw [route, unroutable, List.filterMap_cons, Event.destination]
    cases event.resolve e.shared.registry with
    | ok s => exact ih e
    | error f => exact ih (e.reject event f)

/-- A refused submission has added the unroutable events to the bad ones, and done nothing else. -/
theorem submit_refused {f : Fault} (h : (e.submit events).1 = .error f) :
    (e.submit events).2 = e.withBad (unroutable e.shared.registry events) := by
  rw [submit] at h ⊢
  dsimp only at h ⊢
  split at h
  · exact route_engine e events
  · cases h

end Engine

namespace Ingest

variable {events : List Event} {beats : List (Beat σ)} {s s' : Ingest}

/-! ## What a submission rejects first -/

/-- What was rejected begins with what could not be routed, and is nothing else as long as no
processor was asked for its crew. -/
def Opens (s : Ingest) : Prop :=
  ∃ rest, s.rejections = s.verdicts.filterMap Verdict.bad? ++ rest ∧ (s.isEarly = true → rest = [])

/-- Past the events that are looked up, more may be rejected. -/
theorem Opens.goOn {d : Option Deed} (h : s.Opens) (hverdicts : s'.verdicts = s.verdicts)
    (hdeeds : s'.deeds = s.deeds ++ d.toList)
    (hearly : s'.isEarly = true → s.isEarly = true ∧ d = none) : s'.Opens := by
  obtain ⟨rest, hrest, hnil⟩ := h
  refine ⟨rest ++ d.toList.flatMap Deed.rejections, ?_, fun hs => ?_⟩
  · rw [rejections, hdeeds, List.flatMap_append, hverdicts, ← List.append_assoc, ← hrest]
    rfl
  · obtain ⟨hs, rfl⟩ := hearly hs
    rw [hnil hs]
    rfl

/-- An event is looked up. -/
theorem Opens.routing {todo : List Event} (h : s.Opens) (hstage : s.stage = .routing todo)
    (e : Engine σ) : (s.step e).Opens := by
  obtain ⟨rest, hrest, hnil⟩ := h
  obtain rfl := hnil (by rw [isEarly, hstage])
  rw [List.append_nil] at hrest
  rw [step, hstage]
  cases todo with
  | nil => exact ⟨[], hrest.trans (List.append_nil _).symm, fun _ => rfl⟩
  | cons event todo =>
    dsimp only
    cases event.destination e.shared.registry with
    | ok id =>
      refine ⟨[], ?_, fun _ => rfl⟩
      rw [List.filterMap_append, ← hrest]
      simp [rejections, Verdict.bad?]
    | error f =>
      refine ⟨[], ?_, fun _ => rfl⟩
      rw [List.filterMap_append, ← hrest]
      simp [rejections, Verdict.bad?, Deed.rejections]

/-- Once a processor was asked for its crew, no event is looked up any more. -/
theorem step_of_late (h : s.isEarly = false) (e : Engine σ) :
    (s.step e).verdicts = s.verdicts ∧ (s.step e).isEarly = false := by
  obtain ⟨stage, verdicts, report, deeds⟩ := s
  cases stage with
  | routing todo => cases h
  | checking todo => cases h
  | asking todo =>
    cases todo with
    | nil => exact ⟨rfl, rfl⟩
    | cons id todo =>
      rw [step]
      dsimp only
      split <;> exact ⟨rfl, rfl⟩
  | queueing id serial parts back todo =>
    cases parts with
    | nil => exact ⟨rfl, rfl⟩
    | cons part parts =>
      rw [step]
      dsimp only
      split <;> exact ⟨rfl, rfl⟩
  | rejecting f back todo => cases back <;> exact ⟨rfl, rfl⟩
  | done answer => exact ⟨rfl, h⟩

theorem Opens.late {d : Option Deed} (h : s.Opens) (hverdicts : s'.verdicts = s.verdicts)
    (hdeeds : s'.deeds = s.deeds ++ d.toList) (hlate : s'.isEarly = false) : s'.Opens :=
  h.goOn hverdicts hdeeds fun hs => absurd (hlate.symm.trans hs) Bool.false_ne_true

theorem Opens.step (h : s.Opens) (e : Engine σ) : (s.step e).Opens := by
  cases hearly : s.isEarly with
  | false =>
    obtain ⟨d, hdeeds, -⟩ := step_leaves e s
    obtain ⟨hverdicts, hlate⟩ := step_of_late hearly e
    exact h.late hverdicts hdeeds hlate
  | true =>
    rw [isEarly] at hearly
    split at hearly
    · next hstage => exact h.routing hstage e
    · next todo hstage =>
      have hkept : (s.step e).verdicts = s.verdicts ∧ (s.step e).deeds = s.deeds := by
        rw [Ingest.step, hstage]
        cases todo with
        | nil => exact ⟨rfl, rfl⟩
        | cons id todo =>
          dsimp only
          split <;> exact ⟨rfl, rfl⟩
      exact h.goOn (d := none) hkept.1 (hkept.2.trans (List.append_nil _).symm) fun _ =>
        ⟨by rw [isEarly, hstage], rfl⟩
    · next hstage =>
      rw [Ingest.step, hstage]
      exact h
    · cases hearly

theorem Opens.giveUp (h : s.Opens) : s.giveUp.Opens := by
  rw [Ingest.giveUp]
  split
  · exact h.late (d := some _) rfl rfl rfl
  · exact h

theorem opens_run (events : List Event) (beats : List (Beat σ)) : (run events beats).Opens := by
  induction beats using List.reverseRecOn with
  | nil => exact ⟨[], rfl, fun _ => rfl⟩
  | append_singleton beats b ih =>
    rw [run_concat]
    cases b with
    | go e => exact ih.step e
    | giveUp => exact ih.giveUp

/-! ## Submissions that have returned -/

theorem unroutable_eq (verdicts : List Verdict) :
    verdicts.flatMap Verdict.unroutable =
      (verdicts.filterMap Verdict.bad?).map BadEvent.event := by
  induction verdicts with
  | nil => rfl
  | cons v verdicts ih =>
    obtain ⟨event, verdict⟩ := v
    cases verdict with
    | ok id => exact ih
    | error f => exact congrArg (event :: ·) ih

/-- Under definitions that stay, the verdicts are those of the definitions. -/
theorem bads_of_run {registry : Registry}
    (hregistry : ∀ e, .go e ∈ beats → e.shared.registry = registry)
    (hread : (run events beats).unread = []) :
    (run events beats).verdicts.filterMap Verdict.bad? = Engine.unroutable registry events := by
  have hfits := run_fits events beats
  have hevents : events = (run events beats).verdicts.map Prod.fst := by
    rw [← List.append_nil (List.map _ _), ← hread, hfits.looked]
  calc (run events beats).verdicts.filterMap Verdict.bad?
      = (run events beats).verdicts.filterMap
          fun v => Verdict.bad? (v.1, v.1.destination registry) :=
        List.filterMap_congr fun v hv => by
          obtain ⟨e, he, hverdict⟩ := hfits.resolved v hv
          rw [← hregistry e he, ← hverdict]
    _ = Engine.unroutable registry ((run events beats).verdicts.map Prod.fst) := by
        rw [Engine.unroutable, List.filterMap_map]
        rfl
    _ = Engine.unroutable registry events := congrArg _ hevents.symm

/-- A submission that has returned has rejected all unroutable events, and then those that were
handed back, of which there are none when it was refused. -/
theorem rejections_of_answer {registry : Registry} {answer : Except Fault IngestReport}
    (hanswer : (run events beats).answer? = some answer)
    (hregistry : ∀ e, .go e ∈ beats → e.shared.registry = registry) :
    ∃ rest, (run events beats).rejections = Engine.unroutable registry events ++ rest ∧
      rest.map BadEvent.event = (run events beats).back.map Prod.snd ∧
      ∀ f, answer = .error f → rest = [] := by
  have hstage := stage_of_answer? hanswer
  have hbads := bads_of_run hregistry (by rw [unread, hstage])
  obtain ⟨rest, hrest, hearly⟩ := opens_run events beats
  refine ⟨rest, hbads ▸ hrest, ?_, fun f hf => hearly (by rw [isEarly, hstage, hf])⟩
  have hrefused := (run_fits events beats).refused
  rw [hrest, toReject, hstage, List.append_nil, List.map_append, unroutable,
    unroutable_eq] at hrefused
  exact List.append_cancel_left hrefused

/-- Whatever others do between the steps of a submission, one that is refused has rejected every
unroutable event and done nothing else.  So when the same events are submitted until they are
accepted, each unroutable one is rejected once for every refusal and once more in the end.
`Engine.submit` adds the unroutable events to the bad ones, and changes nothing else, when it
refuses; so it changes nothing at all when every event can be routed. -/
theorem refused_submissions_reject (events : List Event) :
    (∀ registry (refused : List (List (Beat σ))) granted report,
      (∀ beats ∈ granted :: refused, ∀ e, .go e ∈ beats → e.shared.registry = registry) →
      (∀ beats ∈ refused, ∃ f, (run events beats).answer? = some (.error f)) →
      (run events granted).answer? = some (.ok report) →
      ∃ rest, (refused ++ [granted]).flatMap (fun beats => (run events beats).rejections) =
          (List.replicate (refused.length + 1) (Engine.unroutable registry events)).flatten ++
            rest ∧
        rest.map BadEvent.event = (run events granted).back.map Prod.snd) ∧
    ∀ (e : Engine σ) (f : Fault), (e.submit events).1 = .error f →
      (e.submit events).2 = e.withBad (Engine.unroutable e.shared.registry events) ∧
      ((∀ event ∈ events, ∃ id, event.destination e.shared.registry = .ok id) →
        (e.submit events).2 = e) := by
  constructor
  · intro registry refused granted report hregistry hrefused hgranted
    obtain ⟨hlast, hfirst⟩ := List.forall_mem_cons.1 hregistry
    obtain ⟨rest, hrejected, hback, -⟩ := rejections_of_answer hgranted hlast
    refine ⟨rest, ?_, hback⟩
    clear hregistry
    induction refused with
    | nil => simpa using hrejected
    | cons beats refused ih =>
      obtain ⟨⟨f, hf⟩, hrefused⟩ := List.forall_mem_cons.1 hrefused
      obtain ⟨hbeats, hfirst⟩ := List.forall_mem_cons.1 hfirst
      obtain ⟨none, hnone, -, hnil⟩ := rejections_of_answer hf hbeats
      rw [hnil f rfl, List.append_nil] at hnone
      rw [List.cons_append, List.flatMap_cons, hnone, ih hrefused hfirst, List.length_cons,
        List.replicate_succ (n := refused.length + 1), List.flatten_cons, List.append_assoc]
  · intro e f hrefused
    refine ⟨Engine.submit_refused hrefused, fun hrouted => ?_⟩
    have hnone : Engine.unroutable e.shared.registry events = [] := by
      refine List.filterMap_eq_nil_iff.2 fun event hevent => ?_
      obtain ⟨id, hid⟩ := hrouted event hevent
      rw [hid]
      rfl
    rw [Engine.submit_refused hrefused, hnone]
    rfl

/-- Of two events one is about an unknown statistic.  Two submissions are refused because no
processor runs; the third one comes after the processor of the other is started, and is accepted. -/
theorem refused_submissions_reject_logins :
    let stopped := Orders.engineWith []
    let events := [{ Orders.order 0 with name := "logins" }, Orders.order 0]
    let refused := List.replicate 4 (Beat.go stopped)
    let granted := List.replicate 10 (Beat.go (stopped.start Orders.bySecond))
    (run events refused).answer? = some (.error (.notRunning "count-second")) ∧
      (run events granted).answer? = some (.ok ⟨1, 1⟩) ∧
      (∃ rest, [refused, refused, granted].flatMap (fun beats => (run events beats).rejections) =
          (List.replicate 3 (Engine.unroutable stopped.shared.registry events)).flatten ++ rest ∧
        rest.map BadEvent.event = (run events granted).back.map Prod.snd) ∧
      (stopped.submit events).2 =
        stopped.withBad (Engine.unroutable stopped.shared.registry events) := by
  intro stopped events refused granted
  have hrefused : (run events refused).answer? = some (.error (.notRunning "count-second")) := by
    decide +kernel
  have hgranted : (run events granted).answer? = some (.ok ⟨1, 1⟩) := by decide +kernel
  have hsubmit : (stopped.submit events).1 = .error (.notRunning "count-second") := by
    decide +kernel
  obtain ⟨hretried, hlone⟩ := refused_submissions_reject (σ := Uid.Tables) events
  refine ⟨hrefused, hgranted,
    hretried stopped.shared.registry [refused, refused] granted ⟨1, 1⟩ ?_ ?_ hgranted,
    (hlone stopped _ hsubmit).1⟩
  · intro beats hbeats e he
    rcases List.mem_cons.1 hbeats with rfl | hbeats
    · cases List.eq_of_mem_replicate he
      exact congrArg Shared.registry (stopped.shared_start _)
    · obtain rfl : beats = refused := by simpa using hbeats
      cases List.eq_of_mem_replicate he
      rfl
  · intro beats hbeats
    obtain rfl : beats = refused := by simpa using hbeats
    exact ⟨_, hrefused⟩

/-- An order comes with an event about an unknown statistic.  As long as no processor runs the
submission is refused, and yet the other event is among the bad ones; in the end it is there
twice. -/
theorem refused_login_rejected_twice :
    let stopped := Orders.engineWith []
    let events := [{ Orders.order 0 with name := "logins" }, Orders.order 0]
    let refused := stopped.submit events
    let granted := (refused.2.start Orders.bySecond).submit events
    refused.1.toOption = none ∧ granted.1.toOption = some ⟨1, 1⟩ ∧
      stopped.shared.badEvents.events = [] ∧
      refused.2.shared.badEvents.events.map (fun bad => bad.event.name) = ["logins"] ∧
      granted.2.shared.badEvents.events.map (fun bad => bad.event.name) = ["logins", "logins"] := by
  decide +kernel

end Ingest

end StatRollup
