import StatRollup.Proofs.Engine.Contents
import StatRollup.Proofs.Engine.Ingest
import StatRollup.Proofs.Engine.Lookups
import StatRollup.Proofs.Engine.Passing

/-!
# One owner for a key

Raw events are spread over the workers of a processor by the names of their statistics, and entries
that are handed on by the identifiers of the statistics.  Both do not meet: the events of a
statistic come to the processor of its precision, and its entries come to coarser ones only.  So all
that comes to a processor for one statistic comes to one partition, and no two workers of a
processor hold the same key (`Plant.one_owner`).

What a worker holds is of a statistic that came to it (`Supplied`), which every move keeps.  Where
entries came from is then followed back, from coarser processors to finer ones, to an event
(`Supplied.origin`).  Definitions may be registered meanwhile, which changes no precision, and
identifiers belong to one name each as long as no number is drawn twice, however the store of
identifiers fails.

A creation that fails may leave an identifier behind that has a name but is not mapped to.  When
somebody reads that name, events of the name are counted under the identifier left behind, and
events after that under another one.  Both are statistics of their own then, each with one owner.
While everyone is `careful` and does not read what was left behind, a name has one identifier.
-/

namespace StatRollup

open Uid (Dictionary Tables Fallible)

variable {σ : Type} [Uid.Store σ] [Fallible σ]

/-- A message brings something for an identifier: an event with a name that goes with it, or an
entry of it. -/
def Message.Brings (careful : Prop) (tables : Tables) (u : Uid) (m : Message) : Prop :=
  (∃ event ∈ m.raw, tables.Ties careful event.name u) ∨ ∃ x ∈ m.keyed, x.1.statistic = u

/-- A message is about the statistic of a name when one of its events has the name, or the name goes
with the identifier of one of its entries. -/
def Message.IsAbout (careful : Prop) (tables : Tables) (name : String) (m : Message) : Prop :=
  (∃ event ∈ m.raw, event.name = name) ∨ ∃ x ∈ m.keyed, tables.Ties careful name x.1.statistic

/-- The precision of the statistic of a name. -/
def Registry.StoresAt (r : Registry) (name : String) (interval : Interval) : Prop :=
  ∃ s, r.get? name = some s ∧ s.precision = interval

theorem Registry.StoresAt.grows {r r' : Registry} {name : String} {interval : Interval}
    (h : r.StoresAt name interval) (hgrows : r.Grows r') : r'.StoresAt name interval := by
  obtain ⟨s, hs, hprecision⟩ := h
  obtain ⟨s', hs', _, hprecision', _⟩ := hgrows.keeps hs
  exact ⟨s', hs', hprecision'.trans hprecision⟩

/-- An event is for the processor of the precision of its statistic. -/
theorem Event.storesAt_of_destination {registry : Registry} {event : Event} {id : ProcessorId}
    (h : event.destination registry = .ok id) : registry.StoresAt event.name id.interval := by
  rw [destination] at h
  cases hs : event.resolve registry with
  | error f => simp [hs, Except.map] at h
  | ok s =>
    simp only [hs, Except.map, Except.ok.injEq] at h
    subst h
    exact ⟨s, (Event.of_resolve hs).1, rfl⟩

/-- What others do meanwhile: they register definitions and ask the dictionary, its store begins or
ceases to fail, or it is something else that changes neither definitions nor tables. -/
inductive Shared.Serves (careful : Prop) (s s' : Shared σ) : Prop where
  /-- A definition is registered. -/
  | registers {definition : Statistic} : s.registry.register definition = .ok s'.registry →
      s'.dictionary = s.dictionary → Serves careful s s'
  /-- The dictionary is asked for something. -/
  | asks {g : Uid.Goal} (q : Uid.Question g) : q.Heeds careful s.dictionary.tables →
      s'.registry = s.registry → s'.dictionary = (s.dictionary.ask q).2 → Serves careful s s'
  /-- Something else. -/
  | passes (store : σ) : Fallible.tables store = s.dictionary.tables →
      s'.registry = s.registry → s'.dictionary = { s.dictionary with store } → Serves careful s s'

/-- Others change no precision, and names and identifiers still go together. -/
theorem Shared.Serves.advances {careful : Prop} {s s' : Shared σ} {first bound : Nat}
    (h : s.Serves careful s') (hproper : s.registry.Proper)
    (hnumbered : s.dictionary.Numbered careful first bound)
    (hroom : bound + s.attempts ≤ 2 ^ 64) :
    s.registry.Grows s'.registry ∧
      s.dictionary.Advances careful first (bound + s.attempts) s'.dictionary := by
  cases h with
  | registers hregister hdictionary =>
    rw [hdictionary]
    exact ⟨hproper.grows hregister, hnumbered.refl.mono (Nat.le_add_right _ _)⟩
  | asks q hq hregistry hdictionary =>
    rw [hregistry, hdictionary]
    exact ⟨hproper.refl, (hnumbered.ask hroom q hq).1⟩
  | passes store htables hregistry hdictionary =>
    obtain ⟨⟨count, hcount, hdrawn⟩, hmemory⟩ := hnumbered
    rw [hregistry, hdictionary]
    have hsame : ({ s.dictionary with store } : Dictionary σ).tables = s.dictionary.tables :=
      htables
    exact ⟨hproper.refl,
      ⟨⟨count, Nat.le_add_right_of_le hcount, hsame ▸ hdrawn⟩, hsame ▸ hmemory⟩,
      fun hties => hsame ▸ hties, rfl⟩

namespace Plant

variable {careful : Prop} {first e : Engine σ} {s : Plant σ} {slot : Slot}
  {tries number count : Nat}

/-! ## What a move leaves -/

/-- The names that workers exchanged for identifiers, once for each time. -/
def lookups (s : Plant σ) : List String := s.pages.flatMap fun x => x.2.lookups

/-! ## Statistics that came to a worker -/

/-- A statistic came to a worker, with an event or with an entry of another worker. -/
def Brought (careful : Prop) (s : Plant σ) (slot : Slot) (u : Uid) : Prop :=
  ∃ m ∈ s.arrived slot, m.Brings careful s.engine.shared.dictionary.tables u

/-- What came to a worker came with a message. -/
theorem Brought.arrival {u : Uid} (h : s.Brought careful slot u) :
    ∃ a ∈ s.arrivals, a.slot = slot ∧
      a.message.Brings careful s.engine.shared.dictionary.tables u := by
  obtain ⟨m, hm, hbrings⟩ := h
  obtain ⟨a, hfound, rfl⟩ := List.mem_map.1 hm
  obtain ⟨ha, hslot⟩ := List.mem_filter.1 hfound
  exact ⟨a, ha, of_decide_eq_true hslot, hbrings⟩

/-- Messages stay, and so do names and identifiers that go together. -/
theorem Brought.step {u : Uid} {m : Move σ} {bound : Nat} (h : s.Brought careful slot u)
    (hadvances : s.engine.shared.dictionary.Advances careful number bound
      (s.step m).engine.shared.dictionary) :
    (s.step m).Brought careful slot u := by
  obtain ⟨message, hmessage, hbrings⟩ := h
  obtain ⟨more, hmore⟩ := arrivals_step s m
  refine ⟨message, arrived_append hmore slot ▸ List.mem_append_left _ hmessage, ?_⟩
  exact hbrings.imp_left fun ⟨event, hevent, hties⟩ => ⟨event, hevent, hadvances.keeps hties⟩

/-- Events are at the processors of their statistics, and what workers have, or had in a window, is
of statistics that came to them; and no number was drawn twice. -/
structure Supplied (careful : Prop) (tries number count : Nat) (s : Plant σ) : Prop where
  registry : s.engine.shared.registry.Proper
  attempts : s.engine.shared.attempts = tries
  dictionary : s.engine.shared.dictionary.Numbered careful number
    (count + s.lookups.length * tries)
  calls : ∀ call ∈ s.calls, ∀ event ∈ call.events,
    s.engine.shared.registry.StoresAt event.name call.id.interval
  window {slot : Slot} {worker : Worker} : s.engine.workerAt? slot = some worker →
    worker.window.Within (s.Brought careful slot)
  drained (slot : Slot) : ∀ x ∈ (s.diary slot).drained, s.Brought careful slot x.1.statistic

omit [Fallible σ] in
theorem lookups_append {s' : Plant σ} {page : Diary} (h : s'.pages = s.pages ++ [(slot, page)]) :
    s'.lookups = s.lookups ++ page.lookups := by
  rw [lookups, h, List.flatMap_append, List.flatMap_singleton]
  rfl

section

variable (h : s.Supplied careful tries number count)
include h

/-- A move changes no precision, and names and identifiers still go together. -/
theorem Supplied.advances_step (m : Move σ)
    (hroom : count + tries + (s.step m).lookups.length * tries ≤ 2 ^ 64)
    (hshare : ∀ shared, m = .share shared → s.engine.shared.Serves careful shared.1) :
    s.engine.shared.registry.Grows (s.step m).engine.shared.registry ∧
      s.engine.shared.dictionary.Advances careful number
        (count + tries + (s.step m).lookups.length * tries)
        (s.step m).engine.shared.dictionary := by
  obtain ⟨hshared, hpages⟩ | ⟨w, slot, hturn, _, hpages⟩ | ⟨shared, rfl⟩ := shared_step s m
  · rw [hshared, lookups, hpages]
    exact ⟨h.registry.refl, h.dictionary.refl.mono (by rw [lookups]; omega)⟩
  · rw [lookups_append hpages, List.length_append, Nat.add_mul] at hroom ⊢
    have hturned := Engine.advances_turn h.registry h.dictionary
      (by rw [h.attempts]; omega) hturn
    rw [h.attempts] at hturned
    exact ⟨hturned.registry ▸ h.registry.refl, hturned.dictionary.mono (by omega)⟩
  · have hlookups : (s.step (.share shared)).lookups = s.lookups := rfl
    rw [hlookups] at hroom ⊢
    obtain ⟨hgrows, hadvances⟩ := (hshare shared rfl).advances h.registry h.dictionary
      (by rw [h.attempts]; omega)
    rw [h.attempts] at hadvances
    exact ⟨hgrows, hadvances.mono (by omega)⟩

variable (hsound : s.Sound first) (hforward : ∀ id, first.forward? id ≠ some id)
include hsound

section

variable {m : Move σ} {bound : Nat}
  (hroom : count + tries + (s.step m).lookups.length * tries ≤ 2 ^ 64)
  (hadvances : s.engine.shared.dictionary.Advances careful number bound
    (s.step m).engine.shared.dictionary)
include hforward hroom hadvances

/-- What a worker gets in a turn came to it. -/
theorem Supplied.own_turn {worker worker' : Worker} {shared : Shared σ}
    (hfound : s.engine.workerAt? slot = some worker)
    (hown : s.engine.OwnTurn slot.worker worker worker' shared)
    (hpages : (s.step m).pages = s.pages ++ [(slot, s.engine.page slot.worker)])
    (hshared : (s.step m).engine.shared = shared) :
    worker'.window.Within ((s.step m).Brought careful slot) ∧
      ∀ x ∈ (s.engine.page slot.worker).drained,
        (s.step m).Brought careful slot x.1.statistic := by
  rw [lookups_append hpages, List.length_append, Nat.add_mul] at hroom
  refine hown.statistics h.registry h.dictionary (by rw [h.attempts]; omega)
    ((h.window hfound).imp fun _ _ hbrought => hbrought.step hadvances) fun piece hpiece => ?_
  have hhandled : piece ∈ ((s.step m).diary slot).handled := by
    rw [diary_append hpages, if_pos rfl]
    exact List.mem_append_right _ hpiece
  obtain ⟨message, harrived, hpieces⟩ :=
    ((step_sound hsound hforward m).account slot).exists_of_mem_handled hhandled
  obtain ⟨hraw, hkeyed⟩ := Message.subset_of_mem_pieces hpieces
  subst hshared
  exact ⟨fun event hevent u hu => ⟨message, harrived, .inl ⟨event, hraw hevent, hu⟩⟩,
    fun x hx => ⟨message, harrived, .inr ⟨x, hkeyed hx, rfl⟩⟩⟩

theorem Supplied.window_step {worker : Worker}
    (hw : (s.step m).engine.workerAt? slot = some worker) :
    worker.window.Within ((s.step m).Brought careful slot) := by
  cases hsound.follows_step hforward m hw with
  | new empty => exact Window.all_of_empty empty
  | stays found window =>
    rw [window]
    exact (h.window found).imp fun _ _ hbrought => hbrought.step hadvances
  | turns found own pages shared_eq =>
    exact (h.own_turn hsound hforward hroom hadvances found own pages shared_eq).1

theorem Supplied.drained_step (slot : Slot) :
    ∀ x ∈ ((s.step m).diary slot).drained, (s.step m).Brought careful slot x.1.statistic := by
  have hold : ∀ x ∈ (s.diary slot).drained, (s.step m).Brought careful slot x.1.statistic :=
    fun x hx => (h.drained slot x hx).step hadvances
  obtain ⟨_, hpages⟩ | ⟨w, own, hturn, hown, hpages⟩ | ⟨shared, rfl⟩ := shared_step s m
  · rw [diary, hpages]
    exact hold
  · rw [diary_append hpages]
    split
    · next heq =>
      subst heq
      obtain ⟨c, hc, rfl⟩ := Option.map_eq_some_iff.1 hown
      obtain ⟨c', worker, hc', hworker, _, worker', counted, shared, e₁, heq, hturned⟩ :=
        hsound.turned hturn
      cases hc.symm.trans hc'
      have hshared : (s.step m).engine.shared = shared := congrArg Engine.shared heq
      have hfound := (Engine.workerAt?_of_crew? (i := w.partition) hc).trans hworker
      exact List.forall_mem_append.2 ⟨hold,
        (h.own_turn hsound hforward hroom hadvances hfound hturned.own hpages hshared).2⟩
    · exact hold
  · exact hold

end

/-- Every move keeps workers supplied. -/
theorem Supplied.step (hforward : ∀ id, first.forward? id ≠ some id) (m : Move σ)
    (hroom : count + tries + (s.step m).lookups.length * tries ≤ 2 ^ 64)
    (hshare : ∀ shared, m = .share shared → s.engine.shared.Serves careful shared.1)
    (hsubmit : ∀ id events, m = .submit id events → ∀ event ∈ events,
      s.engine.shared.registry.StoresAt event.name id.interval) :
    (s.step m).Supplied careful tries number (count + tries) := by
  obtain ⟨hgrows, hadvances⟩ := h.advances_step m hroom hshare
  have hattempts : (s.step m).engine.shared.attempts = tries :=
    (congrArg RetryPolicy.attempts hadvances.policy).trans h.attempts
  refine ⟨hgrows.proper, hattempts, hadvances.numbered, fun call hcall event hevent => ?_,
    h.window_step hsound hforward hroom hadvances,
    h.drained_step hsound hforward hroom hadvances⟩
  rcases calls_step s m call hcall with hm | ⟨old, hold, hid, hevents⟩
  · exact (hsubmit _ _ hm event hevent).grows hgrows
  · rw [← hevents] at hevent
    exact hid ▸ (h.calls old hold event hevent).grows hgrows

end

/-! ## Runs -/

/-- Events come to processors from submissions to the pipeline, which look up before where each of
them belongs. -/
def Routes (s : Plant σ) (moves : List (Move σ)) : Prop :=
  ∀ before id events after, moves = before ++ .submit id events :: after → ∀ event ∈ events,
    ∃ earlier, earlier <+: before ∧
      event.destination (s.run earlier).engine.shared.registry = .ok id

omit [Fallible σ] in
theorem length_lookups_run (s : Plant σ) (moves more : List (Move σ)) :
    (s.run moves).lookups.length ≤ (s.run (moves ++ more)).lookups.length := by
  induction more using List.reverseRecOn with
  | nil => rw [List.append_nil]
  | append_singleton more m ih =>
    rw [← List.append_assoc, run_concat]
    refine Nat.le_trans ih ?_
    obtain hpages | ⟨_, slot, page, _, hpages⟩ := pages_step (s.run (moves ++ more)) m
    · rw [lookups, lookups, hpages]
    · rw [lookups_append hpages, List.length_append]
      exact Nat.le_add_right _ _

/-- There are no workers in a pipeline that nobody has started. -/
theorem supplied_of_laid (hlaid : e.Laid) (hproper : e.shared.registry.Proper)
    (hnumbered : e.shared.dictionary.Numbered careful number count) :
    Plant.Supplied careful e.shared.attempts number count { engine := e } where
  registry := hproper
  attempts := rfl
  dictionary := hnumbered.mono (Nat.le_add_right _ _)
  calls _ hcall := absurd hcall List.not_mem_nil
  window {slot worker} hw := by
    have hidle : e.workerAt? slot = none := by rw [Engine.workerAt?, hlaid.fresh.idle]; rfl
    exact absurd (hidle.symm.trans hw) (Option.some_ne_none worker).symm
  drained _ _ hx := absurd hx List.not_mem_nil

/-- Workers are supplied throughout a run of a pipeline that nobody had started. -/
theorem supplied_run (hlaid : e.Laid) (hproper : e.shared.registry.Proper)
    (hnumbered : e.shared.dictionary.Numbered careful number count) {moves : List (Move σ)}
    (hallows : Allows (Shared.Serves careful) { engine := e } moves)
    (hroutes : Routes { engine := e } moves)
    (hroom : count + (moves.length + (run { engine := e } moves).lookups.length) *
      e.shared.attempts ≤ 2 ^ 64) :
    (run { engine := e } moves).Supplied careful e.shared.attempts number
      (count + moves.length * e.shared.attempts) := by
  -- Definitions only grow, so an event still belongs where it did when it was looked up.
  have hrun : ∀ before after, moves = before ++ after →
      (run { engine := e } before).Supplied careful e.shared.attempts number
          (count + before.length * e.shared.attempts) ∧
        ∀ earlier, earlier <+: before →
          (run { engine := e } earlier).engine.shared.registry.Grows
            (run { engine := e } before).engine.shared.registry := by
    intro before
    induction before using List.reverseRecOn with
    | nil =>
      refine fun after _ => ⟨?_, fun earlier hearlier => ?_⟩
      · rw [List.length_nil, Nat.zero_mul]
        exact supplied_of_laid hlaid hproper hnumbered
      · rw [List.prefix_nil.1 hearlier]
        exact hproper.refl
    | append_singleton before m ih =>
      intro after heq
      have heq' : moves = before ++ m :: after := heq.trans (List.append_cons ..).symm
      obtain ⟨hsupplied, hgrown⟩ := ih _ heq'
      have hsound := sound_of_fresh hlaid.fresh before
      have hlookups : (run { engine := e } (before ++ [m])).lookups.length ≤
          (run { engine := e } moves).lookups.length :=
        heq ▸ length_lookups_run { engine := e } (before ++ [m]) after
      have hlength : before.length + 1 ≤ moves.length := by
        rw [heq, List.length_append, List.length_append, List.length_singleton]
        exact Nat.le_add_right _ _
      rw [run_concat] at hlookups ⊢
      have hnext : count + before.length * e.shared.attempts + e.shared.attempts +
          ((run { engine := e } before).step m).lookups.length * e.shared.attempts ≤ 2 ^ 64 := by
        have hcost := Nat.mul_le_mul_right e.shared.attempts (Nat.add_le_add hlength hlookups)
        rw [Nat.add_mul, Nat.add_mul, Nat.one_mul] at hcost
        omega
      have hshare : ∀ shared, m = .share shared →
          (run { engine := e } before).engine.shared.Serves careful shared.1 :=
        fun shared hm => hallows before shared after (hm ▸ heq')
      obtain ⟨hgrows, _⟩ := hsupplied.advances_step m hnext hshare
      constructor
      · rw [List.length_append, List.length_singleton, Nat.add_mul, Nat.one_mul, ← Nat.add_assoc]
        refine hsupplied.step hsound hlaid.fresh.forward m hnext hshare
          fun id events hm event hevent => ?_
        obtain ⟨earlier, hearlier, hdestination⟩ :=
          hroutes before id events after (hm ▸ heq') event hevent
        exact (Event.storesAt_of_destination hdestination).grows (hgrown earlier hearlier)
      · intro earlier hearlier
        rcases List.prefix_concat_iff.1 hearlier with rfl | hearlier
        · rw [run_concat]
          exact hgrows.proper.refl
        · exact (hgrown earlier hearlier).trans hgrows
  exact (hrun moves [] (List.append_nil _).symm).1

/-! ## Where statistics come from -/

section

variable (h : s.Supplied careful tries number count) (hsound : s.Sound first)
include h hsound

/-- An event comes to the processor of its statistic, and to the partition of its name. -/
theorem Supplied.raw_of_arrived {a : Arrival} (ha : a ∈ s.arrivals) {event : Event}
    (hevent : event ∈ a.message.raw) :
    s.engine.shared.registry.StoresAt event.name a.slot.processor.interval ∧
      ∃ q, first.partitioner? a.slot.processor = some q ∧
        q.partitionOfEvent event = a.slot.partition := by
  have hfits := hsound.arrivals a ha
  rw [Arrival.Fits] at hfits
  split at hfits
  · next i hsender =>
    obtain ⟨call, events, q, hcall, hmessage, hid, _, hq, hroute⟩ := hfits
    have htaken : event ∈ s.taken i :=
      List.mem_flatMap.2 ⟨a, List.mem_filter.2 ⟨ha, decide_eq_true hsender⟩, hevent⟩
    have hsubmitted : event ∈ call.events :=
      (hsound.calls hcall).events.mem_iff.1 (List.mem_append_right _ htaken)
    rw [hmessage] at hevent
    rw [hid]
    exact ⟨h.calls call (List.mem_of_getElem? hcall) event hsubmitted, q, hq, hroute event hevent⟩
  · obtain ⟨group, _, hmessage, _⟩ := hfits
    rw [hmessage] at hevent
    cases hevent

/-- Events of one name that come to a processor come to one partition. -/
theorem Supplied.raw_together {a b : Arrival} (ha : a ∈ s.arrivals) (hb : b ∈ s.arrivals)
    (hsame : a.slot.processor = b.slot.processor) {event event' : Event}
    (hevent : event ∈ a.message.raw) (hevent' : event' ∈ b.message.raw)
    (hname : event.name = event'.name) : a.slot.partition = b.slot.partition := by
  obtain ⟨_, q, hq, hroute⟩ := h.raw_of_arrived hsound ha hevent
  obtain ⟨_, q', hq', hroute'⟩ := h.raw_of_arrived hsound hb hevent'
  rw [hsame, hq'] at hq
  cases hq
  rw [← hroute, ← hroute', Partitioner.partitionOfEvent, Partitioner.partitionOfEvent, hname]

variable (hchain : ∀ id, first.forward? id = id.coarser?)
include hchain

/-- A statistic that came to a worker goes with a name whose statistic is stored at the interval of
the worker's processor or a finer one. -/
theorem Supplied.origin {u : Uid} (hbrought : s.Brought careful slot u) :
    ∃ name interval, s.engine.shared.dictionary.tables.Ties careful name u ∧
      s.engine.shared.registry.StoresAt name interval ∧
      interval.rank ≤ slot.processor.interval.rank := by
  induction hrank : slot.processor.interval.rank using Nat.strong_induction_on
    generalizing slot with
  | _ rank ih =>
    obtain ⟨a, ha, rfl, hbrings⟩ := hbrought.arrival
    rcases hbrings with ⟨event, hevent, hu⟩ | ⟨x, hx, rfl⟩
    · exact ⟨event.name, _, hu, (h.raw_of_arrived hsound ha hevent).1, Nat.le_of_eq hrank⟩
    · obtain ⟨sender, _, hj, _, _, y, hy, rfl⟩ := hsound.drained_of_arrived ha hx
      have hnext := ProcessorId.coarser?_rank ((hchain _).symm.trans hj)
      obtain ⟨name, interval, hname, hstores, hle⟩ :=
        ih sender.processor.interval.rank (by omega) (h.drained sender y hy) rfl
      exact ⟨name, interval, hname, hstores, by omega⟩

/-- An entry comes to a coarser processor than that of its statistic, and to the partition of its
identifier. -/
theorem Supplied.keyed_of_arrived {a : Arrival} (ha : a ∈ s.arrivals) {x : Entry}
    (hx : x ∈ a.message.keyed) :
    (∃ name interval, s.engine.shared.dictionary.tables.Ties careful name x.1.statistic ∧
      s.engine.shared.registry.StoresAt name interval ∧
      interval.rank < a.slot.processor.interval.rank) ∧
    ∃ q, first.partitioner? a.slot.processor = some q ∧
      q.partitionOf x.1.statistic.toBytes = a.slot.partition := by
  obtain ⟨sender, q, hj, hq, hroute, y, hy, rfl⟩ := hsound.drained_of_arrived ha hx
  have hnext := ProcessorId.coarser?_rank ((hchain _).symm.trans hj)
  obtain ⟨name, interval, hname, hstores, hle⟩ := h.origin hsound hchain (h.drained sender y hy)
  exact ⟨⟨name, interval, hname, hstores, by omega⟩, q, hq, hroute⟩

section

variable {a b : Arrival} (ha : a ∈ s.arrivals) (hb : b ∈ s.arrivals)
  (hsame : a.slot.processor = b.slot.processor)
include ha hb hsame

/-- Entries of one identifier that come to a processor come to one partition. -/
theorem Supplied.keyed_together {x y : Entry} (hx : x ∈ a.message.keyed)
    (hy : y ∈ b.message.keyed) (hstatistic : x.1.statistic = y.1.statistic) :
    a.slot.partition = b.slot.partition := by
  obtain ⟨_, q, hq, hroute⟩ := h.keyed_of_arrived hsound hchain ha hx
  obtain ⟨_, q', hq', hroute'⟩ := h.keyed_of_arrived hsound hchain hb hy
  rw [hsame, hq'] at hq
  cases hq
  rw [← hroute, ← hroute', hstatistic]

/-- Events and entries of one statistic do not come to one processor. -/
theorem Supplied.not_both {event : Event} (hevent : event ∈ a.message.raw) {x : Entry}
    (hx : x ∈ b.message.keyed) :
    ¬ s.engine.shared.dictionary.tables.Ties careful event.name x.1.statistic := by
  intro hties
  obtain ⟨⟨definition, hget, hprecision⟩, _⟩ := h.raw_of_arrived hsound ha hevent
  obtain ⟨⟨name, interval, hname, ⟨definition', hget', hprecision'⟩, hlt⟩, _⟩ :=
    h.keyed_of_arrived hsound hchain hb hx
  obtain rfl : name = event.name := h.dictionary.single hname hties
  cases hget.symm.trans hget'
  rw [← hprecision', hprecision, hsame] at hlt
  exact absurd hlt (Nat.lt_irrefl _)

/-- All that comes to a processor for one identifier comes to one partition. -/
theorem Supplied.gathered {u : Uid}
    (hbrings : a.message.Brings careful s.engine.shared.dictionary.tables u)
    (hbrings' : b.message.Brings careful s.engine.shared.dictionary.tables u) :
    a.slot.partition = b.slot.partition := by
  rcases hbrings with ⟨event, hevent, hties⟩ | ⟨x, hx, rfl⟩ <;>
    rcases hbrings' with ⟨event', hevent', hties'⟩ | ⟨y, hy, hu⟩
  · exact h.raw_together hsound ha hb hsame hevent hevent' (h.dictionary.single hties hties')
  · exact absurd (hu ▸ hties) (h.not_both hsound hchain ha hb hsame hevent hy)
  · exact absurd hties' (h.not_both hsound hchain hb ha hsame.symm hevent' hx)
  · exact h.keyed_together hsound hchain ha hb hsame hx hy hu.symm

/-- While everyone is careful, all that comes to a processor for one name comes to one partition. -/
theorem Supplied.together (hcareful : careful) {name : String}
    (habout : a.message.IsAbout careful s.engine.shared.dictionary.tables name)
    (habout' : b.message.IsAbout careful s.engine.shared.dictionary.tables name) :
    a.slot.partition = b.slot.partition := by
  rcases habout with ⟨event, hevent, rfl⟩ | ⟨x, hx, hties⟩ <;>
    rcases habout' with ⟨event', hevent', hname⟩ | ⟨y, hy, hties'⟩
  · exact h.raw_together hsound ha hb hsame hevent hevent' hname.symm
  · exact absurd hties' (h.not_both hsound hchain ha hb hsame hevent hy)
  · subst hname
    exact absurd hties (h.not_both hsound hchain hb ha hsame.symm hevent' hx)
  · have hstatistic := (hties.mapped hcareful).symm.trans (hties'.mapped hcareful)
    exact h.keyed_together hsound hchain ha hb hsame hx hy (Option.some.inj hstatistic)

end

end

/-! ## What workers hold -/

/-- The entries that a worker holds: in its window, in its mailbox, in a flush, and on the way to
the next processor under their keys there. -/
def held (s : Plant σ) (slot : Slot) : List Entry :=
  ((s.engine.workerAt? slot).map fun w => w.window.entries.toList).getD [] ++
    (s.waiting slot).flatMap Message.keyed ++ s.unwritten slot ++
      (slot.processor.coarser?.map fun j => s.onward j.interval slot).getD []

omit [Fallible σ] in
/-- Whoever holds something is there. -/
theorem workerAt?_of_held {x : Entry} (hx : x ∈ s.held slot) :
    ∃ worker, s.engine.workerAt? slot = some worker := by
  cases hw : s.engine.workerAt? slot with
  | some worker => exact ⟨worker, rfl⟩
  | none =>
    have hnone : s.held slot = [] := by
      simp only [held, waiting, unwritten, onward, hw, Option.map_none, Option.getD_none]
      cases slot.processor.coarser? <;> rfl
    rw [hnone] at hx
    cases hx

section

variable (h : s.Supplied careful tries number count) (hsound : s.Sound first)
  (hchain : ∀ id, first.forward? id = id.coarser?)
include h hsound hchain

/-- All that a worker holds is of statistics that came to it. -/
theorem Supplied.brought_of_held {x : Entry} (hx : x ∈ s.held slot) :
    s.Brought careful slot x.1.statistic := by
  have haccount := hsound.account slot
  have hwritten : ∀ y ∈ (s.diary slot).written, s.Brought careful slot y.1.statistic :=
    fun y hy =>
    h.drained slot y <| haccount.entries.mem_iff.2 <|
      List.mem_append_left _ <| List.mem_append_left _ <| List.mem_append_left _ hy
  rw [held, List.mem_append, List.mem_append, List.mem_append] at hx
  rcases hx with ((hx | hx) | hx) | hx
  · cases hw : s.engine.workerAt? slot with
    | none =>
      rw [hw] at hx
      cases hx
    | some worker =>
      rw [hw] at hx
      exact h.window hw x.1 x.2 (Std.TreeMap.mem_toList_iff_getElem?_eq_some.1 hx)
  · obtain ⟨m, hm, hkeyed⟩ := List.mem_flatMap.1 hx
    have harrived : m ∈ s.arrived slot := by
      rw [haccount.messages]
      exact List.mem_append_right _ hm
    exact ⟨m, harrived, .inr ⟨x, hkeyed, rfl⟩⟩
  · exact h.drained slot x (haccount.entries.mem_iff.2 (List.mem_append_right _ hx))
  · cases hj : slot.processor.coarser? with
    | none =>
      rw [hj] at hx
      cases hx
    | some j =>
      rw [hj] at hx
      obtain ⟨y, hy, rfl⟩ := List.mem_map.1 <|
        (haccount.onward ((hchain _).trans hj)).mem_iff.2 <|
          List.mem_append_left _ <| List.mem_append_left _ <| List.mem_append_left _ hx
      exact hwritten y hy

/-- Workers of one processor that hold entries of one statistic are the same. -/
theorem Supplied.eq_of_held {slot' : Slot} (hsame : slot.processor = slot'.processor)
    {x y : Entry} (hx : x ∈ s.held slot) (hy : y ∈ s.held slot')
    (hstatistic : x.1.statistic = y.1.statistic) : slot = slot' := by
  obtain ⟨a, ha, rfl, hbrings⟩ := (h.brought_of_held hsound hchain hx).arrival
  obtain ⟨b, hb, rfl, hbrings'⟩ := (h.brought_of_held hsound hchain hy).arrival
  have hpartition := h.gathered hsound hchain ha hb hsame hbrings (hstatistic ▸ hbrings')
  obtain ⟨worker, hworker⟩ := workerAt?_of_held hx
  obtain ⟨worker', hworker'⟩ := workerAt?_of_held hy
  exact Engine.eq_of_workerAt? hworker hworker' hsame hpartition

end

/-! ## One owner -/

/-- Every key has one worker of a processor at most. -/
structure Owned (careful : Prop) (s : Plant σ) : Prop where
  /-- Every entry that comes to a worker is of an identifier that goes with exactly one name. -/
  named {a : Arrival} {x : Entry} : a ∈ s.arrivals → x ∈ a.message.keyed →
    ∃! name, s.engine.shared.dictionary.tables.Ties careful name x.1.statistic
  /-- All events and all entries for one identifier that come to a processor come to one
  partition. -/
  gathered {a b : Arrival} {u : Uid} : a ∈ s.arrivals → b ∈ s.arrivals →
    a.slot.processor = b.slot.processor →
    a.message.Brings careful s.engine.shared.dictionary.tables u →
    b.message.Brings careful s.engine.shared.dictionary.tables u →
    a.slot.partition = b.slot.partition
  /-- While everyone is careful, all events and all entries of the statistic of one name that come
  to a processor come to one partition. -/
  together {a b : Arrival} {name : String} : careful → a ∈ s.arrivals → b ∈ s.arrivals →
    a.slot.processor = b.slot.processor →
    a.message.IsAbout careful s.engine.shared.dictionary.tables name →
    b.message.IsAbout careful s.engine.shared.dictionary.tables name →
    a.slot.partition = b.slot.partition
  /-- Workers of one processor that hold entries of one statistic are the same, so no two workers of
  it hold the same key. -/
  alone {slot slot' : Slot} {x y : Entry} : slot.processor = slot'.processor →
    x ∈ s.held slot → y ∈ s.held slot' → x.1.statistic = y.1.statistic → slot = slot'

/-- In every run of a pipeline, with any number of partitions, in any order of submissions, turns,
starts and stops and with any failures of both stores, everything that comes to a processor for one
statistic comes to one partition, and no two workers of a processor hold the same key.  Meanwhile
others may register definitions, but remove none, and may ask the dictionary for anything, as long
as there are numbers left for all names that are looked up.  When somebody looks up the name of an
identifier that an unfinished creation left behind, this is a statistic of its own; while everyone
is careful not to, there is one statistic for each name. -/
theorem one_owner {settings : Settings} {shared : Shared σ}
    (hnew : Engine.pipeline settings shared = .ok e)
    (harranged : ∀ entries, (shared.arrange entries).Perm entries)
    (hproper : shared.registry.Proper)
    (hnumbered : shared.dictionary.Numbered careful number count) (moves : List (Move σ))
    (hallows : Allows (Shared.Serves careful) { engine := e } moves)
    (hroutes : Routes { engine := e } moves)
    (hroom : count + (moves.length + (run { engine := e } moves).lookups.length) *
      shared.attempts ≤ 2 ^ 64) :
    (run { engine := e } moves).Owned careful := by
  have hlaid := Engine.laid_pipeline hnew harranged
  have hshared : e.shared = shared := by rw [Engine.eq_of_pipeline hnew]
  subst hshared
  have hsupplied := supplied_run hlaid hproper hnumbered hallows hroutes hroom
  have hsound := sound_of_fresh hlaid.fresh moves
  refine ⟨fun ha hx => ?_, fun ha hb hsame => hsupplied.gathered hsound hlaid.forward ha hb hsame,
    fun hcareful ha hb hsame => hsupplied.together hsound hlaid.forward ha hb hsame hcareful,
    fun hsame hx hy => hsupplied.eq_of_held hsound hlaid.forward hsame hx hy⟩
  obtain ⟨⟨name, _, hname, _⟩, _⟩ := hsupplied.keyed_of_arrived hsound hlaid.forward ha hx
  exact ⟨name, hname, fun other hother => hsupplied.dictionary.single hother hname⟩

end Plant

/-! ## Orders and logins -/

namespace Orders

open Plant.Move

/-- The store of identifiers fails when the first name is mapped. -/
def faultyShared : Shared (Uid.Unsteady Tables) :=
  let shared := sharedWith []
  { registry := ⟨shared.registry.byName.insert logins.name logins⟩
    dictionary := .new
      { store := .empty settings.uidWidth
        outages := [{ verb := .claim, kind := .cancelled, times := 1 }] }
      settings.dictionaryCacheCapacity
    store := shared.store
    badEvents := shared.badEvents
    cap := shared.cap }

/-- A pipeline for orders and logins with five partitions per processor. -/
def spreadEngine : Engine (Uid.Unsteady Tables) :=
  { shared := faultyShared
    processors := ProcessorId.all.map fun id =>
      { id, settings := { settings with partitions := 5 }, forward := id.coarser? } }

/-- An order is rejected, as its name cannot be mapped. -/
def rejectedMoves : List (Plant.Move (Uid.Unsteady Tables)) :=
  [start bySecond, start byMinute, submit bySecond [order 0], deliver 0, turn ⟨bySecond, 2⟩]

/-- Two orders are counted by second and handed on, and a login comes between them, so that the
dictionary does not remember orders any more. -/
def countedMoves : List (Plant.Move (Uid.Unsteady Tables)) :=
  [submit bySecond [order 1000], deliver 1] ++ List.replicate 4 (turn ⟨bySecond, 2⟩) ++
    [submit byMinute [login 0], deliver 2, turn ⟨byMinute, 4⟩, submit bySecond [order 2000],
      deliver 3] ++ List.replicate 4 (turn ⟨bySecond, 2⟩)

/-- The identifier that was not mapped to is looked up. -/
def lookUpLeftover : Plant.Move (Uid.Unsteady Tables) :=
  let shared := (Plant.run { engine := spreadEngine } rejectedMoves).engine.shared
  share ⟨{ shared with
    dictionary := (shared.dictionary.ask (.nameOf ((Uid.ofNat? 1 1).get rfl))).2
    arrange := fun entries => entries }, fun _ => .refl _⟩

/-- All submissions are of events that belong to the processor. -/
theorem routes_of_sublist {moves : List (Plant.Move (Uid.Unsteady Tables))}
    (h : moves.Sublist (rejectedMoves ++ [lookUpLeftover] ++ countedMoves)) :
    Plant.Routes { engine := spreadEngine } moves := by
  intro before id events after heq event hevent
  have hsubmit : .submit id events ∈ rejectedMoves ++ [lookUpLeftover] ++ countedMoves :=
    h.mem (heq ▸ List.mem_append_right _ List.mem_cons_self)
  have hcalls : id = bySecond ∧ events = [order 0] ∨ id = bySecond ∧ events = [order 1000] ∨
      id = byMinute ∧ events = [login 0] ∨ id = bySecond ∧ events = [order 2000] := by
    simpa [rejectedMoves, lookUpLeftover, countedMoves] using hsubmit
  refine ⟨[], List.nil_prefix, ?_⟩
  obtain ⟨rfl, rfl⟩ | ⟨rfl, rfl⟩ | ⟨rfl, rfl⟩ | ⟨rfl, rfl⟩ := hcalls
  all_goals
    cases List.mem_singleton.1 hevent
    rfl

end Orders

/-- By name orders belong to the partition 2.  Without the lookup both of them come to the partition
0 by identifier.  With it the first one is counted under the identifier that was left behind, and
each comes to a partition of its own. -/
theorem Plant.one_owner_orders :
    let minutes (s : Plant (Uid.Unsteady Tables)) :=
      s.arrivals.filterMap fun a => if a.message.keyed.isEmpty then none else some a.slot.partition
    let careful := run { engine := Orders.spreadEngine }
      (Orders.rejectedMoves ++ Orders.countedMoves)
    let careless := run { engine := Orders.spreadEngine }
      (Orders.rejectedMoves ++ [Orders.lookUpLeftover] ++ Orders.countedMoves)
    careful.Owned True ∧ minutes careful = [0, 0] ∧
      careless.Owned False ∧ minutes careless = [0, 1] := by
  intro minutes careful careless
  have hnew : Engine.pipeline { Orders.settings with partitions := 5 }
      Orders.spreadEngine.shared = .ok Orders.spreadEngine := rfl
  have hnumbered {careful : Prop} :
      Orders.faultyShared.dictionary.Numbered careful (0 : UInt64).toNat 0 :=
    Uid.Dictionary.numbered_new _ _ _ (Uid.Tables.numbered_empty 1 0)
  have hproper : Orders.faultyShared.registry.Proper :=
    (Registry.proper_empty.insert _).insert _
  have hquiet : ∀ shared, Move.share shared ∉ Orders.rejectedMoves ∧
      Move.share shared ∉ Orders.countedMoves := by
    simp [Orders.rejectedMoves, Orders.countedMoves]
  have hcounted {careful : Prop} {s : Plant (Uid.Unsteady Tables)} :
      Allows (Shared.Serves careful) s Orders.countedMoves :=
    allows_of_quiet fun shared => (hquiet shared).2
  have hrejected {careful : Prop} {s : Plant (Uid.Unsteady Tables)} :
      Allows (Shared.Serves careful) s Orders.rejectedMoves :=
    allows_of_quiet fun shared => (hquiet shared).1
  have hlookUp : Allows (Shared.Serves False) (run { engine := Orders.spreadEngine }
      Orders.rejectedMoves) [Orders.lookUpLeftover] := by
    intro before shared after heq
    obtain ⟨rfl, hshare⟩ : before = [] ∧ Orders.lookUpLeftover = .share shared := by
      cases before with
      | nil => exact ⟨rfl, (List.cons.inj heq).1⟩
      | cons m before => simp at heq
    cases hshare
    exact .asks _ (Uid.Question.heeds_careless _ _) rfl rfl
  refine ⟨one_owner hnew (fun _ => .refl _) hproper hnumbered
    (Orders.rejectedMoves ++ Orders.countedMoves) (hrejected.append hcounted)
    (Orders.routes_of_sublist (by simp)) ?_, ?_,
    one_owner hnew (fun _ => .refl _) hproper hnumbered
    (Orders.rejectedMoves ++ [Orders.lookUpLeftover] ++ Orders.countedMoves)
    ((hrejected.append hlookUp).append hcounted) (Orders.routes_of_sublist (.refl _)) ?_, ?_⟩
  all_goals decide +kernel

end StatRollup
