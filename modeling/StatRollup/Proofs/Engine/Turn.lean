import StatRollup.Engine.Schedule
import StatRollup.Proofs.Engine.Load

/-!
# A turn at the bench

What a worker does by itself loses no count and makes none up.  Handling an event turns it into
entries of the window, a flush writes the window to the cells and keeps the entries in hand to pass
them on, and all other turns leave the counts where they are.  `turn_leads` says so of every turn,
and that the worker and what all workers share stay sound.
-/

namespace StatRollup

open Uid (Dictionary Tables)

/-! ## What all workers share -/

/-- The identifier tables. -/
def Shared.tables (s : Shared) : Tables := s.dictionary.store

/-- Nothing that workers share will fail them, as long as all names are of a list. -/
structure Shared.Sound (names : List String) (s : Shared) : Prop where
  /-- Definitions are under their own names. -/
  registry : s.registry.Proper
  /-- The dictionary is sound. -/
  dictionary : s.dictionary.Sound
  /-- It has room for all names. -/
  room : s.dictionary.HasRoom names
  /-- No write is going to fail. -/
  steady : s.store.Steady
  /-- Cells were written for definitions. -/
  cells : s.store.cells.Orderly s.registry s.tables
  /-- Entries leave a window in some order. -/
  arranged (entries : List Entry) : (s.arrange entries).Perm entries

/-- A cell of a registered definition, under a mask that it requires and at an interval that is no
finer than its precision. -/
structure Target.Registered (registry : Registry) (t : Target) : Prop where
  definition : registry.get? t.statistic.name = some t.statistic
  mask : t.mask ∈ t.statistic.requiredMasks
  interval : t.statistic.precision.rank ≤ t.interval.rank

/-! ## A round without failures -/

/-- A round without failures writes the whole batch. -/
theorem Flush.afterRound_ok (policy : RetryPolicy) (batch : List Entry) :
    (ofBatch batch).afterRound policy (batch.map fun _ => .ok ()) =
      { round := 2, left := [], written := batch, givenUp := [] } := by
  have hjudged : (ofBatch batch).judged policy (batch.map fun _ => .ok ()) =
      batch.map fun x => (x, Fate.written) := by
    rw [judged, fitResults, if_pos (by simp [ofBatch]), List.map_map, ofBatch]
    show batch.zip (batch.map fun _ => Fate.written) = _
    induction batch with
    | nil => rfl
    | cons x batch ih => rw [List.map_cons, List.map_cons, List.zip_cons_cons, ih]
  simp only [afterRound, hjudged, leftOf, writtenOf, givenUpOf, List.filterMap_map]
  simp [ofBatch]

/-- What a worker turns to after a flush and all that follows from it. -/
def Trigger.next : Trigger → Activity
  | .stop => .ended
  | .size => .waiting
  | .time => .waiting

@[simp] theorem Trigger.finishes_next (trigger : Trigger) :
    trigger.next.finishes = decide (trigger = .stop) := by
  cases trigger <;> rfl

namespace Bench

variable {names : List String} {id : ProcessorId} {p : Post} {b b' b'' : Bench} {e : Event}
  {w : Worker} {gain gain' : Target → Nat} {trigger : Trigger} {batch : List Entry}

/-- What the cells and the worker hold for a target. -/
def amount (b : Bench) (t : Target) : Nat :=
  t.held b.shared.tables b.shared.store.cells + b.worker.load b.shared.tables t

/-- From one sound state to another, with a gain for every target. -/
structure Leads (names : List String) (id : ProcessorId) (b b' : Bench) (gain : Target → Nat) :
    Prop where
  registry : b'.shared.registry = b.shared.registry
  shared : b'.shared.Sound names
  grows : b.shared.tables.Extends b'.shared.tables
  worker : b'.worker.Fits b'.shared.registry b'.shared.tables names id
  tallies (t : Target) : t.Registered b.shared.registry →
    Tallies (b'.amount t) (b.amount t + gain t)

theorem Leads.trans (h : Leads names id b b' gain) (h' : Leads names id b' b'' gain') :
    Leads names id b b'' fun t => gain t + gain' t where
  registry := h'.registry.trans h.registry
  shared := h'.shared
  grows := h.grows.trans h'.grows
  worker := h'.worker
  tallies t ht := by
    refine (h'.tallies t (h.registry ▸ ht)).trans ?_
    rw [← Nat.add_assoc]
    exact (h.tallies t ht).add_right _

theorem Leads.of_eq (h : Leads names id b b' gain) (heq : ∀ t, gain t = gain' t) :
    Leads names id b b' gain' := by
  rw [← funext heq]
  exact h

/-! ## Handling messages -/

/-- Entries of a processor merge, and what they contribute adds up. -/
theorem merges (registry : Registry) (tables : Tables) (id : ProcessorId) (cap : Nat) :
    Window.Merges (Pending.merge cap) (EntryFits registry tables id)
      fun (t : Target) entry => t.ofEntry tables entry where
  merged {k a b} ha hb := by
    obtain ⟨c, hc⟩ := (Aggregate.merge_isOk_iff cap a.aggregate b.aggregate).2
      (ha.kind.trans hb.kind.symm)
    refine ⟨{ a with aggregate := c }, by rw [Pending.merge, hc]; rfl,
      ⟨ha.interval, (Aggregate.kind_merge hc).trans ha.kind, ha.belongs⟩, fun t => ?_⟩
    by_cases htakes : t.Takes tables k
    · simp only [Target.ofEntry, if_pos htakes, Aggregate.total_merge hc]
      exact .of_addCounts _ _
    · simp only [Target.ofEntry, if_neg htakes]
      exact .refl 0

/-- The worker of a bench with tables that grew and another window. -/
theorem Leads.of_window {d : Dictionary Tables} {window : Window Key Pending} (handle : Nat)
    (hs : b.shared.Sound names)
    (hw : b.worker.Fits b.shared.registry b.shared.tables names id)
    (hcreates : b.shared.dictionary.Creates names d)
    (hbusy : b.worker.activity.finishes = false)
    (hall : window.All (EntryFits b.shared.registry d.store id))
    (htally : ∀ t : Target, t.Registered b.shared.registry →
      Tallies (window.weight (t.ofEntry d.store))
        (b.worker.window.weight (t.ofEntry d.store) + gain t)) :
    Leads names id b { b with
      shared := { b.shared with dictionary := d, nextHandle := handle }
      worker := { b.worker with window } } gain where
  registry := rfl
  shared := ⟨hs.registry, hcreates.sound, hcreates.room, hs.steady,
    hs.cells.mono hcreates.extends_, hs.arranged⟩
  grows := hcreates.extends_
  worker := by
    have hw' := hw.mono hcreates.extends_
    refine ⟨hw'.messages, hall, hw'.activity, hw'.closing, fun hfin => ?_⟩
    rw [hbusy] at hfin
    cases hfin
  tallies t ht := by
    have hheld : t.held d.store b.shared.store.cells =
        t.held b.shared.tables b.shared.store.cells :=
      hs.cells.held_of_extends hcreates.sound hcreates.extends_
    have hload : b.worker.load d.store t = b.worker.load b.shared.tables t :=
      Worker.load_of_extends hcreates.sound hcreates.extends_ hw
    show Tallies (t.held d.store b.shared.store.cells + (({ b.worker with window } : Worker).load
      d.store t)) _
    rw [amount, hheld, ← hload, Worker.load, Worker.load]
    have hmore := (((htally t ht).add_left
      (b.worker.mailbox.queue.map (Message.load d.store t)).sum).add_right
      (b.worker.activity.load d.store t)).add_left (t.held b.shared.tables b.shared.store.cells)
    exact hmore.trans (.of_eq (by omega))

/-- An event that fits becomes entries of the window. -/
theorem handleEvent_leads (hp : p.id.processor = id) (hs : b.shared.Sound names)
    (hw : b.worker.Fits b.shared.registry b.shared.tables names id)
    (hbusy : b.worker.activity.finishes = false) (he : e.Fits b.shared.registry names id) :
    Leads names id b (b.handleEvent p e) (fun t => t.ofEvent e) ∧
      ∃ window, (b.handleEvent p e).worker = { b.worker with window } := by
  obtain ⟨⟨s, hresolve, rfl⟩, hnamed⟩ := he
  obtain ⟨hget, hkind, _⟩ := Event.of_resolve hresolve
  obtain ⟨ids, ts, d, hmap, hcreates, hids, hts, hmem⟩ :=
    mapEvent_ok hs.registry hs.dictionary hs.room hresolve hnamed b.shared.cap
  let entry : Pending :=
    { aggregate := .ofEvent b.shared.cap e, source := ⟨b.shared.nextHandle, e⟩ }
  let entries : List Entry := s.requiredMasks.map fun mask => (e.keyUnder ids s ts mask, entry)
  have hfits : ∀ x ∈ entries,
      EntryFits b.shared.registry d.store ⟨s.kind, s.precision⟩ x.1 x.2 := by
    intro x hx
    obtain ⟨mask, _, rfl⟩ := List.mem_map.1 hx
    refine ⟨rfl, ?_, Target.belongs_keyUnder hcreates.sound hs.registry hget hids hmem⟩
    rw [← hkind]
    show (Aggregate.ofEvent _ _).kind = _
    rw [Aggregate.ofEvent]
    cases e.reading <;> rfl
  obtain ⟨window, hadd, hall, htally⟩ :=
    Window.addAll_ok (merges b.shared.registry d.store ⟨s.kind, s.precision⟩ p.settings.maxEventIds)
      (hw.mono hcreates.extends_).window entries hfits
  have heq : b.handleEvent p e = { b with
      shared := { b.shared with dictionary := d, nextHandle := b.shared.nextHandle + 1 }
      worker := { b.worker with window } } := by
    have hadd' : b.worker.window.addAll (Pending.merge p.settings.maxEventIds)
        ((s.requiredMasks.map fun mask =>
            (e.keyUnder ids s ts mask, Aggregate.ofEvent b.shared.cap e)).map fun x =>
          (x.1, { aggregate := x.2, source := ⟨b.shared.nextHandle, e⟩ })) = .ok window := by
      rw [List.map_map]
      exact hadd
    simp only [handleEvent, hp, hmap]
    rw [hadd']
  rw [heq]
  refine ⟨Leads.of_window _ hs hw hcreates hbusy hall fun t ht => ?_, window, rfl⟩
  have hsum : (entries.map (t.ofEntry d.store)).sum = t.ofEvent e := by
    rw [List.map_map]
    exact Target.sum_ofEntry_keys hcreates.sound hs.registry hget ht.definition ht.mask ht.interval
      hids hts hmem rfl
  rw [← hsum]
  exact htally t

/-- Entries that fit are added to the window. -/
theorem handleRollups_leads (p : Post) (hs : b.shared.Sound names)
    (hw : b.worker.Fits b.shared.registry b.shared.tables names id)
    (hbusy : b.worker.activity.finishes = false) {entries : List Entry}
    (hentries : ∀ x ∈ entries, EntryFits b.shared.registry b.shared.tables id x.1 x.2) :
    Leads names id b (b.handleRollups p entries) (fun t => t.ofEntries b.shared.tables entries) ∧
      ∃ window, (b.handleRollups p entries).worker = { b.worker with window } := by
  obtain ⟨window, hadd, hall, htally⟩ := Window.addAll_ok
    (merges b.shared.registry b.shared.tables id p.settings.maxEventIds) hw.window entries hentries
  have heq : b.handleRollups p entries = { b with worker := { b.worker with window } } := by
    rw [handleRollups, Window.addEach_of_addAll hadd]
  rw [heq]
  exact ⟨Leads.of_window b.shared.nextHandle hs hw (.refl hs.dictionary hs.room) hbusy hall
    fun t _ => htally t, window, rfl⟩

/-! ## Flushing -/

/-- Without a horizon nothing is purged. -/
theorem afterFlush_eq (hkeep : p.settings.retention p.id.processor.interval = none) :
    b.afterFlush p trigger =
      { b with worker := { b.worker with activity := trigger.next } } := by
  cases trigger with
  | size => rfl
  | stop => rfl
  | time =>
    rw [afterFlush, purgeIfDue, horizonIfDue?, hkeep, ite_self]
    rfl

/-- A round writes its batch to the cells and keeps it in hand. -/
theorem round_ok (p : Post) (trigger : Trigger) (hs : b.shared.Sound names)
    (hbatch : ∀ x ∈ batch, EntryFits b.shared.registry b.shared.tables id x.1 x.2) :
    ∃ store stats badEvents, b.round p trigger (.ofBatch batch) =
      { shared := { b.shared with store, badEvents }
        stats
        worker := { b.worker with activity := .handingOn trigger batch } } ∧
      store.Steady ∧ store.cells.Orderly b.shared.registry b.shared.tables ∧
      ∀ t : Target, Tallies (t.held b.shared.tables store.cells)
        (t.held b.shared.tables b.shared.store.cells +
          (batch.map fun x => t.ofWrite b.shared.tables x.1 x.2.aggregate).sum) := by
  obtain ⟨store, hstore, hsteady, horderly, htally⟩ :=
    Cells.Unsteady.mergeBatch_ok hs.dictionary hs.steady hs.cells (Flush.ofBatch batch).requests
      (by
        intro x hx
        obtain ⟨y, hy, rfl⟩ := List.mem_map.1 hx
        have hfits := hbatch y hy
        exact hfits.kind ▸ hfits.belongs)
  have hresults : (Flush.ofBatch batch).requests.map (fun _ => (.ok () : Except Fault Unit)) =
      batch.map fun _ => .ok () := List.map_map
  rw [hresults] at hstore
  let after : Bench := ({ b with shared := { b.shared with store } } : Bench).conclude p trigger
    { round := 2, left := [], written := batch, givenUp := [] }
  have hround : b.round p trigger (.ofBatch batch) = after := by
    rw [round, hstore]
    simp only [Flush.afterRound_ok, Flush.isOver, List.isEmpty_nil, if_true, after]
  refine ⟨store, after.stats, after.shared.badEvents, hround, hsteady, horderly,
    fun t => (htally t).trans (.of_eq ?_)⟩
  · rw [Flush.requests, List.map_map]
    rfl

/-- A worker that empties its window and turns to something else. -/
def emptied (b : Bench) (activity : Activity) : Worker :=
  { b.worker with
    window := { b.worker.window.clear with openedAt := b.shared.now }
    activity }

theorem fits_emptied {registry : Registry} {tables : Tables} {activity : Activity}
    (hw : b.worker.Fits registry tables names id)
    (hactivity : activity.Fits registry tables names id)
    (hstop : activity.finishes = true →
      b.worker.isClosing = true ∧ b.worker.mailbox.queue = []) :
    (b.emptied activity).Fits registry tables names id where
  messages := hw.messages
  window := Window.all_of_empty rfl
  activity := hactivity
  closing := hw.closing
  finished h := ⟨(hstop h).1, (hstop h).2, rfl⟩

/-- A flush moves the entries of the window to the cells, and to what the worker is handing on. -/
theorem flush_leads (trigger : Trigger)
    (hkeep : p.settings.retention p.id.processor.interval = none)
    (hs : b.shared.Sound names)
    (hw : b.worker.Fits b.shared.registry b.shared.tables names id)
    (hwaiting : b.worker.activity = .waiting)
    (hstop : trigger = .stop → b.worker.isClosing = true ∧ b.worker.mailbox.queue = []) :
    Leads names id b (b.flush p trigger) (fun _ => 0) ∧
      Engine.isSending (b.flush p trigger).worker = false ∧
      (b.flush p trigger).worker.isClosing = b.worker.isClosing := by
  have hperm := hs.arranged b.worker.window.entries.toList
  have hload : ∀ t, b.worker.load b.shared.tables t =
      (b.worker.mailbox.queue.map (Message.load b.shared.tables t)).sum +
        t.ofEntries b.shared.tables (b.shared.arrange b.worker.window.entries.toList) := by
    intro t
    rw [Worker.load, hwaiting, Target.ofEntries, (hperm.map _).sum_eq]
    rfl
  have hfits : ∀ x ∈ b.shared.arrange b.worker.window.entries.toList,
      EntryFits b.shared.registry b.shared.tables id x.1 x.2 := fun x hx =>
    hw.window x.1 x.2 (Window.mem_toList (hperm.mem_iff.1 hx))
  cases hbatch : b.shared.arrange b.worker.window.entries.toList with
  | nil =>
    have heq : b.flush p trigger = { b with worker := b.emptied trigger.next } := by
      rw [flush]
      simp only [Window.drain, hbatch]
      exact afterFlush_eq hkeep
    rw [heq]
    refine ⟨⟨rfl, hs, .refl _, fits_emptied hw ?_ fun h => ?_, fun t _ => ?_⟩, ?_, rfl⟩
    · cases trigger <;> trivial
    · exact hstop (by simpa using h)
    · rw [amount, amount, hload, hbatch]
      refine .of_eq ?_
      cases trigger <;> rfl
    · cases trigger <;> rfl
  | cons x batch =>
    rw [hbatch] at hfits
    obtain ⟨store, stats, badEvents, hround, hsteady, horderly, htally⟩ :=
      round_ok (b := { b with worker := b.emptied .waiting }) p trigger hs hfits
    have heq : b.flush p trigger =
        { shared := { b.shared with store, badEvents }
          stats
          worker := b.emptied (.handingOn trigger (x :: batch)) } := by
      rw [flush]
      simp only [Window.drain, hbatch]
      exact hround
    rw [heq]
    refine ⟨⟨rfl, ⟨hs.registry, hs.dictionary, hs.room, hsteady, horderly, hs.arranged⟩, .refl _,
      fits_emptied hw hfits fun h => ?_, fun t _ => ?_⟩, rfl, rfl⟩
    · exact hstop (by simpa using h)
    · have hsum : t.ofEntries b.shared.tables (x :: batch) =
          ((x :: batch).map fun y => t.ofWrite b.shared.tables y.1 y.2.aggregate).sum +
            ((x :: batch).map (t.ofWritten b.shared.tables)).sum := by
        rw [← List.sum_map_add, Target.ofEntries]
        exact congrArg List.sum
          (List.map_congr_left fun y hy => Target.ofEntry_eq (hfits y hy).belongs y.2)
      have hload' : (b.emptied (.handingOn trigger (x :: batch))).load b.shared.tables t =
          (b.worker.mailbox.queue.map (Message.load b.shared.tables t)).sum +
            ((x :: batch).map (t.ofWritten b.shared.tables)).sum := rfl
      have hheld : Tallies (t.held b.shared.tables store.cells)
          (t.held b.shared.tables b.shared.store.cells +
            ((x :: batch).map fun y => t.ofWrite b.shared.tables y.1 y.2.aggregate).sum) :=
        htally t
      show Tallies (t.held b.shared.tables store.cells +
        (b.emptied (.handingOn trigger (x :: batch))).load b.shared.tables t) _
      rw [amount, hload, hload', hbatch, hsum]
      exact (hheld.add_right _).trans (.of_eq (by omega))

/-! ## Turns -/

/-- The worker at the end of a message. -/
theorem fits_finished {registry : Registry} {tables : Tables}
    (hw : w.Fits registry tables names id) :
    ({ w with activity := .waiting } : Worker).Fits registry tables names id :=
  ⟨hw.messages, hw.window, trivial, hw.closing, fun hfin => absurd hfin Bool.false_ne_true⟩

/-- At the end of a message nothing is left of it. -/
theorem finishMessage_leads
    (hkeep : p.settings.retention p.id.processor.interval = none) (hs : b.shared.Sound names)
    (hw : b.worker.Fits b.shared.registry b.shared.tables names id)
    (hactivity : b.worker.activity = .handling []) :
    Leads names id b (b.finishMessage p) (fun _ => 0) ∧
      Engine.isSending (b.finishMessage p).worker = false ∧
      (b.finishMessage p).worker.isClosing = b.worker.isClosing := by
  let waits : Bench := { b with worker := { b.worker with activity := .waiting } }
  have hwaits : Leads names id b waits (fun _ => 0) := by
    refine ⟨rfl, hs, .refl _, fits_finished hw, fun t _ => .of_eq ?_⟩
    show _ + Worker.load b.shared.tables t { b.worker with activity := .waiting } = _
    rw [amount, Worker.load, Worker.load, hactivity]
    rfl
  rw [finishMessage]
  dsimp only
  split
  · obtain ⟨hflush, hsend, hclosing⟩ := flush_leads (b := waits) .size hkeep hs
      hwaits.worker rfl (by intro h; cases h)
    exact ⟨(hwaits.trans hflush).of_eq fun _ => rfl, hsend, hclosing⟩
  · exact ⟨hwaits, rfl, rfl⟩

/-- An event that is left of a message moves into the window. -/
theorem handleNext_leads (hp : p.id.processor = id)
    (hkeep : p.settings.retention p.id.processor.interval = none) (hs : b.shared.Sound names)
    (hw : b.worker.Fits b.shared.registry b.shared.tables names id) {events : List Event}
    (hactivity : b.worker.activity = .handling events) :
    Leads names id b (b.handleNext p events) (fun _ => 0) ∧
      Engine.isSending (b.handleNext p events).worker = false ∧
      (b.handleNext p events).worker.isClosing = b.worker.isClosing := by
  cases events with
  | nil => exact finishMessage_leads hkeep hs hw hactivity
  | cons e rest =>
    have hevents := hw.activity
    rw [hactivity] at hevents
    obtain ⟨he, hrest⟩ := List.forall_mem_cons.1 hevents
    let taken : Bench := { b with worker := { b.worker with activity := .handling rest } }
    have htaken : taken.worker.Fits taken.shared.registry taken.shared.tables names id :=
      ⟨hw.messages, hw.window, hrest, hw.closing, fun hfin => absurd hfin Bool.false_ne_true⟩
    obtain ⟨hlead, window, hworker⟩ := handleEvent_leads (b := taken) hp hs htaken rfl he
    -- The event is not in hand any more, and what it contributes is in the window.
    have hlead' : Leads names id b (taken.handleEvent p e) (fun _ => 0) := by
      refine ⟨hlead.registry, hlead.shared, hlead.grows, hlead.worker, fun t ht => ?_⟩
      refine (hlead.tallies t ht).trans (.of_eq ?_)
      show t.held b.shared.tables b.shared.store.cells +
        ((b.worker.mailbox.queue.map (Message.load b.shared.tables t)).sum +
          b.worker.window.weight (t.ofEntry b.shared.tables) + t.ofEvents rest) + t.ofEvent e = _
      rw [amount, Worker.load, hactivity, Activity.load, Target.ofEvents, Target.ofEvents,
        List.map_cons, List.sum_cons]
      omega
    rw [handleNext]
    dsimp only
    split
    · next hlast =>
      have hlast : (taken.handleEvent p e).worker.activity = .handling [] := by
        rw [hworker, ← List.isEmpty_iff.1 hlast]
      obtain ⟨hfinish, hsend, hclosing⟩ := finishMessage_leads hkeep hlead'.shared
        hlead'.worker hlast
      refine ⟨(hlead'.trans hfinish).of_eq fun _ => rfl, hsend, hclosing.trans ?_⟩
      rw [hworker]
    · refine ⟨hlead', ?_, ?_⟩
      · rw [show (handleEvent p _ e).worker = _ from hworker]
        rfl
      · rw [show (handleEvent p _ e).worker = _ from hworker]

/-- The oldest message leaves the mailbox, and what it contributed is in hand or in the window. -/
theorem receive_leads (hp : p.id.processor = id)
    (hkeep : p.settings.retention p.id.processor.interval = none) (hs : b.shared.Sound names)
    (hw : b.worker.Fits b.shared.registry b.shared.tables names id)
    (hwaiting : b.worker.activity = .waiting) {m : Message} {rest : List Message}
    (hqueue : b.worker.mailbox.queue = m :: rest) :
    Leads names id b (b.receive p m rest) (fun _ => 0) ∧
      Engine.isSending (b.receive p m rest).worker = false ∧
      (b.receive p m rest).worker.isClosing = b.worker.isClosing := by
  have hmessages := hqueue ▸ hw.messages
  obtain ⟨hm, hrest⟩ := List.forall_mem_cons.1 hmessages
  have hload : ∀ t, b.worker.load b.shared.tables t = m.load b.shared.tables t +
      (rest.map (Message.load b.shared.tables t)).sum +
        b.worker.window.weight (t.ofEntry b.shared.tables) := by
    intro t
    rw [Worker.load, hqueue, hwaiting, List.map_cons, List.sum_cons]
    rfl
  have hraw : ∀ e ∈ m.raw, e.Fits b.shared.registry names id := by
    cases m with
    | events es => exact hm
    | rollups es => exact List.forall_mem_nil _
  have hfits : (b.takeUp m rest).worker.Fits b.shared.registry b.shared.tables names id :=
    ⟨hrest, hw.window, hraw, hw.closing, fun hfin => absurd hfin Bool.false_ne_true⟩
  cases m with
  | events es =>
    have htaken : Leads names id b (b.takeUp (.events es) rest) (fun _ => 0) := by
      refine ⟨rfl, hs, .refl _, hfits, fun t _ => .of_eq ?_⟩
      show t.held b.shared.tables b.shared.store.cells +
        ((rest.map (Message.load b.shared.tables t)).sum +
          b.worker.window.weight (t.ofEntry b.shared.tables) + t.ofEvents es) = _
      rw [amount, hload, Message.load]
      omega
    obtain ⟨hnext, hsend, hclosing⟩ :=
      handleNext_leads (b := b.takeUp (.events es) rest) hp hkeep hs hfits rfl
    exact ⟨(htaken.trans hnext).of_eq fun _ => rfl, hsend, hclosing⟩
  | rollups es =>
    obtain ⟨hlead, window, hworker⟩ :=
      handleRollups_leads (b := b.takeUp (.rollups es) rest) p hs hfits rfl hm
    have hlead' : Leads names id b ((b.takeUp (.rollups es) rest).handleRollups p es)
        (fun _ => 0) := by
      refine ⟨hlead.registry, hlead.shared, hlead.grows, hlead.worker, fun t ht => ?_⟩
      refine (hlead.tallies t ht).trans (.of_eq ?_)
      show t.held b.shared.tables b.shared.store.cells +
        ((rest.map (Message.load b.shared.tables t)).sum +
          b.worker.window.weight (t.ofEntry b.shared.tables) + 0) +
            t.ofEntries b.shared.tables es = _
      rw [amount, hload, Message.load]
      omega
    obtain ⟨hfinish, hsend, hclosing⟩ := finishMessage_leads hkeep hlead'.shared hlead'.worker
      (congrArg Worker.activity hworker)
    refine ⟨(hlead'.trans hfinish).of_eq fun _ => rfl, hsend, hclosing.trans ?_⟩
    rw [hworker]
    rfl

/-- A turn of a worker by itself keeps all counts.  It closes the mailbox only when the worker is
told to stop, and it does not begin to send. -/
theorem turn_leads (hp : p.id.processor = id)
    (hkeep : p.settings.retention p.id.processor.interval = none) (hs : b.shared.Sound names)
    (hw : b.worker.Fits b.shared.registry b.shared.tables names id) {stopping : Bool}
    (h : b.turn p stopping = some b') :
    Leads names id b b' (fun _ => 0) ∧ Engine.isSending b'.worker = false ∧
      (stopping = false → b'.worker.isClosing = b.worker.isClosing) := by
  have hactivity := hw.activity
  rw [turn] at h
  split at h
  · next hwaiting =>
    rw [waitingTurn] at h
    split at h
    · next hstop =>
      cases h
      refine ⟨⟨rfl, hs, .refl _, ⟨hw.messages, hw.window, hw.activity, rfl, fun hfin => ?_⟩,
        fun t _ => .refl _⟩, ?_, fun hgo => ?_⟩
      · rw [show (_ : Worker).activity = _ from hwaiting] at hfin
        cases hfin
      · rw [Engine.isSending, show (_ : Worker).activity = _ from hwaiting]
      · rw [hgo] at hstop
        cases hstop
    · split at h
      · next m rest hqueue =>
        cases h
        obtain ⟨hlead, hsend, hclosing⟩ :=
          receive_leads (p := p) hp hkeep hs hw hwaiting hqueue
        exact ⟨hlead, hsend, fun _ => hclosing⟩
      · next hqueue =>
        split at h
        · next hclosing =>
          cases h
          obtain ⟨hflush, hsend, hsame⟩ :=
            flush_leads .stop hkeep hs hw hwaiting fun _ => ⟨hclosing, hqueue⟩
          exact ⟨hflush, hsend, fun _ => hsame⟩
        · split at h
          · cases h
            obtain ⟨hflush, hsend, hsame⟩ :=
              flush_leads .time hkeep hs hw hwaiting (by intro h; cases h)
            exact ⟨hflush, hsend, fun _ => hsame⟩
          · cases h
  · next events hhandling =>
    cases h
    obtain ⟨hnext, hsend, hclosing⟩ := handleNext_leads hp hkeep hs hw hhandling
    exact ⟨hnext, hsend, fun _ => hclosing⟩
  · next hback =>
    rw [hback] at hactivity
    exact hactivity.elim
  · cases h

end Bench

end StatRollup
