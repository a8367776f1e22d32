import StatRollup.Proofs.Engine.Deadline
import StatRollup.Proofs.Engine.EventKeys
import StatRollup.Proofs.Engine.Following
import StatRollup.Proofs.Engine.Marks
import StatRollup.Proofs.Uid.Numbering

/-!
# What workers look up

A worker exchanges the names of the events that it handles for identifiers, each as a creation that
takes a number for each of its attempts at most (`Diary.lookups`).  The entries that it gets are of
identifiers that go with the names of these events, and of the statistics of the entries that others
handed on to it.  `Bench.Draws` says both of a turn at the bench, whatever becomes of the events and
however either store fails.

Nothing is asked of the width of identifiers: when a number makes no identifier the event is
rejected, and nothing is new in the window.
-/

namespace StatRollup

open Uid (Dictionary Tables Fallible)

variable {σ : Type} [Uid.Store σ] [Fallible σ]

/-! ## Mapping -/

section

variable {careful : Prop} {d : Dictionary σ} {first bound : Nat} {tags : List Tag} {e : Event}

/-- Names of tags and their values take as many numbers as their creations have attempts at most. -/
theorem internTags_advances (h : d.Numbered careful first bound)
    (hroom : bound + 2 * tags.length * d.policy.attempts ≤ 2 ^ 64) :
    d.Advances careful first (bound + 2 * tags.length * d.policy.attempts)
      (internTags d tags).2 := by
  induction tags generalizing d bound with
  | nil => exact h.refl.mono (Nat.le_add_right _ _)
  | cons t tags ih =>
    have hlength : 2 * (t :: tags).length * d.policy.attempts =
        d.policy.attempts + d.policy.attempts + 2 * tags.length * d.policy.attempts := by
      rw [List.length_cons, Nat.mul_succ, Nat.add_mul, Nat.two_mul d.policy.attempts, Nat.add_comm]
    rw [hlength] at hroom ⊢
    have hname := (h.create (by omega) t.name).1
    rw [internTags]
    generalize d.getOrCreate t.name = outcome at hname
    obtain ⟨f | name, d₁⟩ := outcome
    · exact hname.mono (by omega)
    · have hvalue := (hname.numbered.create (by rw [hname.policy]; omega) t.value).1
      dsimp only at hvalue ⊢
      generalize d₁.getOrCreate t.value = outcome at hvalue
      obtain ⟨f | value, d₂⟩ := outcome
      · exact (hname.trans hvalue).mono (by rw [hname.policy]; omega)
      · have hboth := hname.trans hvalue
        have hrest := ih hboth.numbered (by rw [hboth.policy, hname.policy]; omega)
        exact (hboth.trans hrest).mono (by rw [hboth.policy, hname.policy]; omega)

theorem Event.length_mentions (e : Event) : e.mentions.length = 2 * e.tags.length + 1 := by
  simp only [mentions, List.length_cons, List.length_flatMap, List.length_nil, List.map_const',
    List.sum_replicate_nat, Nat.mul_comm]

/-- Mapping an event takes as many numbers as the creations of its names have attempts at most, and
the keys that it gives are of an identifier that goes with the name of the event. -/
theorem mapEvent_advances {registry : Registry} (hproper : registry.Proper)
    (h : d.Numbered careful first bound)
    (hroom : bound + e.mentions.length * d.policy.attempts ≤ 2 ^ 64) (cap : Nat)
    (kind : Statistic.Kind) (interval : Interval) :
    let outcome := mapEvent registry d cap kind interval e
    d.Advances careful first (bound + e.mentions.length * d.policy.attempts) outcome.2 ∧
      ∀ pairs, outcome.1 = .ok pairs → ∀ x ∈ pairs,
        outcome.2.tables.Ties careful e.name x.1.statistic := by
  intro outcome
  have hlength : e.mentions.length * d.policy.attempts =
      d.policy.attempts + 2 * e.tags.length * d.policy.attempts := by
    rw [e.length_mentions, Nat.add_mul, Nat.one_mul, Nat.add_comm]
  rw [hlength] at hroom ⊢
  cases hs : e.resolveAt registry kind interval with
  | error f =>
    have heq : outcome = (.error f, d) := by simp only [outcome, mapEvent, hs]
    rw [heq]
    exact ⟨h.refl.mono (Nat.le_add_right _ _), by simp⟩
  | ok s =>
    have hname : s.name = e.name := hproper e.name s (Event.of_resolve (Event.of_resolveAt hs).1).1
    have heq : outcome = keyedAggregates d cap s e := by simp only [outcome, mapEvent, hs]
    obtain ⟨hcreated, hties⟩ := h.create (by omega) e.name
    rw [heq, keyedAggregates, hname]
    generalize d.getOrCreate e.name = created at hcreated hties
    obtain ⟨f | statistic, d₁⟩ := created
    · exact ⟨hcreated.mono (by omega), by simp⟩
    · have htags : d₁.Advances careful first
          (bound + d.policy.attempts + 2 * e.tags.length * d₁.policy.attempts)
          (internTags d₁ e.tags).2 :=
        internTags_advances hcreated.numbered (by rw [hcreated.policy]; omega)
      have hstatistic := htags.keeps (hties statistic rfl)
      have hboth := (hcreated.trans htags).mono
        (show _ ≤ bound + (d.policy.attempts + 2 * e.tags.length * d.policy.attempts) by
          rw [hcreated.policy]; omega)
      dsimp only
      generalize internTags d₁ e.tags = interned at hboth hstatistic
      obtain ⟨f | tagged, d₂⟩ := interned
      · exact ⟨hboth, by simp⟩
      · refine ⟨hboth, fun pairs hpairs x hx => ?_⟩
        cases hkeys : Key.build s statistic e.timestamp tagged with
        | error f => simp [hkeys, Except.map] at hpairs
        | ok keys =>
          simp only [hkeys, Except.map, Except.ok.injEq] at hpairs
          subst hpairs
          obtain ⟨k, hk, rfl⟩ := List.mem_map.1 hx
          rw [(Key.of_build hkeys hk).2.1]
          exact hstatistic

end

/-! ## What is shared -/

/-- The names that a worker exchanged for identifiers, once for each time. -/
def Diary.lookups (d : Diary) : List String :=
  d.handled.flatMap fun m => m.raw.flatMap Event.mentions

theorem Diary.lookups_event (e : Event) :
    ({ handled := [.events [e]] } : Diary).lookups = e.mentions := by
  simp [lookups, Message.raw]

theorem Diary.lookups_add (d page : Diary) : (d.add page).lookups = d.lookups ++ page.lookups :=
  List.flatMap_append

/-- How often a request to the store of identifiers is made at most. -/
def Shared.attempts (s : Shared σ) : Nat := s.dictionary.policy.attempts

/-- From what workers share to what they share later: the same definitions, and a dictionary in
which names and identifiers still go together. -/
structure Shared.Advances (careful : Prop) (first bound : Nat) (s s' : Shared σ) : Prop where
  registry : s'.registry = s.registry
  dictionary : s.dictionary.Advances careful first bound s'.dictionary

section

variable {careful : Prop} {first bound bound' : Nat} {s s' s'' : Shared σ}

theorem Shared.Advances.of_names (h : s'.names = s.names)
    (hnumbered : s.dictionary.Numbered careful first bound) :
    s.Advances careful first bound s' := by
  obtain ⟨hregistry, hdictionary⟩ := Prod.mk.inj h
  exact ⟨hregistry, hdictionary ▸ hnumbered.refl⟩

theorem Shared.Advances.trans (h : s.Advances careful first bound s')
    (h' : s'.Advances careful first bound' s'') : s.Advances careful first bound' s'' :=
  ⟨h'.registry.trans h.registry, h.dictionary.trans h'.dictionary⟩

theorem Shared.Advances.mono (h : s.Advances careful first bound s') (hle : bound ≤ bound') :
    s.Advances careful first bound' s' := ⟨h.registry, h.dictionary.mono hle⟩

theorem Shared.Advances.attempts (h : s.Advances careful first bound s') :
    s'.attempts = s.attempts := by
  rw [Shared.attempts, Shared.attempts, h.dictionary.policy]

end

/-- All statistics of a message satisfy a condition: those that go with the names of its events, and
those of its entries. -/
structure Message.Within (careful : Prop) (tables : Tables) (ok : Uid → Prop) (m : Message) :
    Prop where
  raw : ∀ event ∈ m.raw, ∀ u, tables.Ties careful event.name u → ok u
  keyed : ∀ x ∈ m.keyed, ok x.1.statistic

/-- All keys in a window are of statistics that satisfy a condition. -/
def Window.Within (ok : Uid → Prop) (w : Window Key Pending) : Prop :=
  w.All fun k _ => ok k.statistic

namespace Bench

variable {careful : Prop} {first bound : Nat} {p : Post} {b b' b'' : Bench σ} {page page' : Diary}
  {e : Event}

/-- What a worker looks up, with the page for its diary, and the statistics that it gets entries
of. -/
structure Draws (careful : Prop) (first bound : Nat) (page : Diary) (b b' : Bench σ) : Prop where
  /-- It takes as many numbers for a name that it looks up as a creation has attempts, at most. -/
  shared : b.shared.Advances careful first (bound + page.lookups.length * b.shared.attempts)
    b'.shared
  /-- What is in the window, or has left it, was in the window or is of a message. -/
  statistics {ok : Uid → Prop} : b.worker.window.Within ok →
    (∀ m ∈ page.handled, m.Within careful b'.shared.dictionary.tables ok) →
    b'.worker.window.Within ok ∧ ∀ x ∈ page.drained, ok x.1.statistic

theorem Draws.trans (h : Draws careful first bound page b b')
    (h' : Draws careful first (bound + page.lookups.length * b.shared.attempts) page' b' b'') :
    Draws careful first bound (page.add page') b b'' where
  shared := by
    have hrest := h'.shared
    rw [h.shared.attempts] at hrest
    rw [Diary.lookups_add, List.length_append, Nat.add_mul, ← Nat.add_assoc]
    exact h.shared.trans hrest
  statistics {ok} hwindow hhandled := by
    obtain ⟨hbefore, hafter⟩ := List.forall_mem_append.1 hhandled
    obtain ⟨hwindow', hdrained⟩ := h.statistics hwindow fun m hm =>
      ⟨fun event hevent u hu => (hbefore m hm).raw event hevent u
        (h'.shared.dictionary.keeps hu), (hbefore m hm).keyed⟩
    obtain ⟨hwindow'', hdrained'⟩ := h'.statistics hwindow' hafter
    exact ⟨hwindow'', List.forall_mem_append.2 ⟨hdrained, hdrained'⟩⟩

/-- Nothing is looked up, and no entry comes. -/
theorem Draws.of_same (hnumbered : b.shared.dictionary.Numbered careful first bound)
    (hnames : b'.shared.names = b.shared.names)
    (hwindow : b'.worker.window.entries = {} ∨
      b'.worker.window.entries = b.worker.window.entries)
    (hhandled : page.handled = []) (hdrained : page.drained = []) :
    Draws careful first bound page b b' where
  shared := by
    rw [Diary.lookups, hhandled]
    exact (Shared.Advances.of_names hnames hnumbered).mono (Nat.le_add_right _ _)
  statistics {ok} hbefore _ := by
    refine ⟨?_, by rw [hdrained]; exact List.forall_mem_nil _⟩
    rcases hwindow with hempty | hsame
    · exact Window.all_of_empty hempty
    · intro k a hk
      rw [Window.get?, hsame] at hk
      exact hbefore k a hk

/-! ## Steps -/

section

variable (hproper : b.shared.registry.Proper)
  (hnumbered : b.shared.dictionary.Numbered careful first bound)
include hproper hnumbered

theorem handleEvent_draws (p : Post)
    (hroom : bound + e.mentions.length * b.shared.attempts ≤ 2 ^ 64) :
    Draws careful first bound { handled := [.events [e]] } b (b.handleEvent p e) := by
  obtain ⟨hadvances, hstatistic⟩ := mapEvent_advances hproper hnumbered hroom b.shared.cap
    p.id.processor.kind p.id.processor.interval
  have hshared : b.shared.Advances careful first (bound + e.mentions.length * b.shared.attempts)
      (b.shared.mapped p.id.processor e) := ⟨rfl, hadvances⟩
  have hnames : (b.handleEvent p e).shared.names = (b.shared.mapped p.id.processor e).names := by
    rw [handleEvent]
    dsimp only
    split
    · rfl
    · split <;> rfl
  obtain ⟨hregistry, hdictionary⟩ := Prod.mk.inj hnames
  refine ⟨?_, fun {ok} hwindow hhandled => ⟨?_, List.forall_mem_nil _⟩⟩
  · rw [Diary.lookups_event]
    exact hshared.trans (.of_names hnames hadvances.numbered)
  · have hraw := (hhandled _ List.mem_cons_self).raw e List.mem_cons_self
    rw [hdictionary] at hraw
    rw [handleEvent]
    dsimp only
    split
    · exact hwindow
    · next pairs hpairs =>
      split
      · next window hadd =>
        refine Window.all_of_addAll (fun _ _ _ _ ha _ _ => ha) hwindow (fun x hx => ?_) hadd
        obtain ⟨y, hy, rfl⟩ := List.mem_map.1 hx
        exact hraw _ (hstatistic pairs hpairs y hy)
      · exact hwindow

omit hproper in
/-- What is in the window leaves it. -/
theorem flush_draws (p : Post) (trigger : Trigger) :
    Draws careful first bound (b.flushPage p) b (b.flush p trigger) := by
  obtain ⟨-, hhandled, hdrained⟩ := flushPage_reads p b
  refine ⟨?_, fun {ok} hwindow _ => ⟨Window.all_of_empty (entries_flush p b trigger), ?_⟩⟩
  · rw [Diary.lookups, hhandled]
    exact (Shared.Advances.of_names (names_flush p b trigger) hnumbered).mono (Nat.le_add_right _ _)
  · rw [hdrained]
    exact fun x hx => hwindow x.1 x.2 (Std.TreeMap.mem_toList_iff_getElem?_eq_some.1 hx)

/-- What a worker looks up in a step. -/
theorem Step.draws {stopping : Bool} (h : Step p stopping page b b')
    (hroom : bound + page.lookups.length * b.shared.attempts ≤ 2 ^ 64) :
    Draws careful first bound page b b' := by
  cases h with
  | closes => exact .of_same hnumbered rfl (.inr rfl) rfl rfl
  | takes => exact .of_same hnumbered rfl (.inr rfl) rfl rfl
  | rollups =>
    refine ⟨⟨rfl, hnumbered.refl.mono (Nat.le_add_right _ _)⟩,
      fun hwindow hhandled => ⟨?_, List.forall_mem_nil _⟩⟩
    exact Window.all_addEach (fun _ _ _ _ ha _ _ => ha) hwindow
      (List.forall_mem_singleton.1 hhandled).keyed
  | @event _ e rest =>
    rw [Diary.lookups_event] at hroom
    obtain ⟨hshared, hstatistics⟩ := handleEvent_draws
      (b := { b with worker := { b.worker with activity := .handling rest } })
      hproper hnumbered p hroom
    exact ⟨hshared, hstatistics⟩
  | ends => exact .of_same hnumbered rfl (.inr rfl) rfl rfl
  | flushes trigger => exact flush_draws hnumbered p trigger
  | @rounds _ trigger f =>
    obtain ⟨-, hhandled, hdrained⟩ := roundPage_reads p b f
    exact .of_same hnumbered (names_round p b trigger f) (entries_round_or p b trigger f) hhandled
      hdrained

/-- What a worker looks up in steps one after another. -/
theorem Steps.draws {stopping : Bool} (h : Steps p stopping page b b')
    (hroom : bound + page.lookups.length * b.shared.attempts ≤ 2 ^ 64) :
    Draws careful first bound page b b' := by
  induction h generalizing bound with
  | one step => exact step.draws hproper hnumbered hroom
  | cons step _ ih =>
    rw [Diary.lookups_add, List.length_append, Nat.add_mul] at hroom
    have hfirst := step.draws hproper hnumbered (by omega)
    exact hfirst.trans (ih (hfirst.shared.registry ▸ hproper) hfirst.shared.dictionary.numbered
      (by rw [hfirst.shared.attempts]; omega))

end

end Bench

/-! ## Turns of an engine -/

namespace Engine

variable {careful : Prop} {first bound : Nat} {e e' : Engine σ} {w : WorkerId} {p : Processor}
  {worker worker' : Worker} {shared : Shared σ}

omit [Fallible σ] in
/-- Handing entries on asks the dictionary for nothing. -/
theorem HandsOn.names (h : e.HandsOn p w.partition worker e') :
    e'.shared.names = e.shared.names := by
  cases h with
  | skips => exact Bench.names_afterFlush _ _ _
  | groups => rfl
  | sends _ _ taken =>
    obtain ⟨_, _, _, _, _, halike⟩ := place_of_deliver taken
    exact congrArg Shared.names halike.shared

section

variable (hproper : e.shared.registry.Proper)
  (hnumbered : e.shared.dictionary.Numbered careful first bound)
  (hroom : bound + (e.page w).lookups.length * e.shared.attempts ≤ 2 ^ 64)
include hproper hnumbered hroom

/-- What a turn does to what is shared. -/
theorem advances_turn (hturn : e.turn w = some e') :
    e.shared.Advances careful first (bound + (e.page w).lookups.length * e.shared.attempts)
      e'.shared := by
  obtain ⟨p, c, worker, hp, hcrew, hw, hturns⟩ := turn_cases hturn
  have hworker := (worker?_eq hcrew).trans hw
  cases hturns with
  | bench hown hb =>
    have hpage := page_of_turn hp hcrew hworker hown
    rw [hpage] at hroom ⊢
    exact ((Bench.turn_steps hb).draws hproper hnumbered hroom).shared
  | passing hands =>
    obtain ⟨trigger, hpassing⟩ := hands.passing
    obtain ⟨dropped, hpage⟩ := page_of_passing hp hcrew hworker hpassing
    rw [hpage]
    exact (Shared.Advances.of_names hands.names hnumbered).mono (Nat.le_add_right _ _)

/-- What a turn does to what the worker has. -/
theorem OwnTurn.statistics (h : e.OwnTurn w worker worker' shared)
    {ok : Uid → Prop} (hwindow : worker.window.Within ok)
    (hhandled : ∀ m ∈ (e.page w).handled, m.Within careful shared.dictionary.tables ok) :
    worker'.window.Within ok ∧ ∀ x ∈ (e.page w).drained, ok x.1.statistic := by
  cases h with
  | bench found turned page worker_eq shared_eq =>
    subst worker_eq shared_eq
    rw [page] at hroom hhandled ⊢
    exact ((Bench.turn_steps turned).draws hproper hnumbered hroom).statistics hwindow hhandled
  | passing _ _ worker_eq page _ =>
    subst worker_eq
    rw [page]
    exact ⟨hwindow, List.forall_mem_nil _⟩

end

end Engine

end StatRollup
