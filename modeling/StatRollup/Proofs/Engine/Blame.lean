import StatRollup.Proofs.Engine.Deadline
import StatRollup.Proofs.Engine.Sources

/-!
# Who is to blame in a turn

An entry stays with the source that it came with when others are merged into it.  So what a window
has for a key is of the first event that brought it since the window was empty, no matter whether
it came as an event or in an entry of another processor (`Worker.Credits`).

A worker rejects an event when it handles it, if the event does not resolve, and at the end of a
flush it rejects the sources of the entries that it gave up in the rounds of the flush, which the
flush remembers in between (`Activity.blamed`).  `Bench.turn_attributes` says both of every turn.
-/

namespace StatRollup

open Uid (Dictionary Tables)

/-! ## The first of several entries -/

namespace Window

variable {cap : Nat} {w w' : Window Key Pending} {k k' : Key} {a : Pending} {l : List Entry}
  {f : Fault}

/-- The event that is to blame for what a window holds for a key. -/
def source? (w : Window Key Pending) (k : Key) : Option Event :=
  (w.get? k).map fun p => p.source.event

/-- The event that is to blame for the first of several entries with a key. -/
def firstSource? (k : Key) (l : List Entry) : Option Event :=
  (l.find? fun x => x.1 = k).map fun x => x.2.source.event

theorem firstSource?_cons (k : Key) (x : Entry) (l : List Entry) :
    firstSource? k (x :: l) = (firstSource? k [x]).or (firstSource? k l) := by
  by_cases h : x.1 = k <;> simp [firstSource?, h]

theorem firstSource?_of_event (k : Key) (pairs : List (Key × Aggregate)) (handle : Nat)
    (e : Event) : firstSource? k (pairs.map fun x => (x.1, ⟨x.2, handle, e⟩)) =
      if k ∈ pairs.map Prod.fst then some e else none := by
  induction pairs with
  | nil => rfl
  | cons x pairs ih =>
    rw [List.map_cons, firstSource?_cons, ih, List.map_cons]
    by_cases h : x.1 = k
    · simp [firstSource?, h]
    · have hmem : k ∈ x.1 :: pairs.map Prod.fst ↔ k ∈ pairs.map Prod.fst := by
        simp [Ne.symm h]
      rw [if_congr hmem rfl rfl]
      simp [firstSource?, h]

theorem source?_of_empty (h : w.entries = {}) (k : Key) : w.source? k = none := by
  rw [source?, get?, h]
  rfl

theorem source?_put (w : Window Key Pending) (k : Key) (a : Pending) (k' : Key) :
    (w.put k a).source? k' = (firstSource? k' [(k, a)]).or (w.source? k') := by
  by_cases heq : k = k'
  · subst heq
    simp [source?, firstSource?, get?, put, Std.TreeMap.get?_eq_getElem?]
  · have hne : compare k k' ≠ .eq := fun h => heq (Std.LawfulEqCmp.eq_of_compare h)
    simp [source?, firstSource?, get?, put, Std.TreeMap.get?_eq_getElem?,
      Std.TreeMap.getElem?_insert, heq, hne]

/-- An entry that was there first stays to blame. -/
theorem firstSource?_of_held (h : w.get? k = some a) (b : Pending) (k' : Key) :
    (w.source? k').or (firstSource? k' [(k, b)]) = w.source? k' := by
  by_cases heq : k = k'
  · subst heq
    rw [source?, h]
    rfl
  · simp [firstSource?, heq]

theorem source?_add (h : w.add (Pending.merge cap) k a = .ok w') (k' : Key) :
    w'.source? k' = (w.source? k').or (firstSource? k' [(k, a)]) := by
  rcases add_eq_ok.1 h with ⟨hheld, rfl⟩ | ⟨held, c, hheld, hc, rfl⟩
  · rw [source?_put]
    by_cases heq : k = k'
    · subst heq
      rw [show w.source? k = none by rw [source?, hheld]; rfl]
      simp
    · simp [firstSource?, heq]
  · obtain ⟨aggregate, _, rfl⟩ := Pending.of_merge hc
    rw [source?_put, firstSource?_of_held hheld]
    by_cases heq : k = k'
    · subst heq
      rw [source?, hheld]
      simp [firstSource?]
    · simp [firstSource?, heq]

theorem source?_of_add_error (h : w.add (Pending.merge cap) k a = .error f) (k' : Key) :
    (w.source? k').or (firstSource? k' [(k, a)]) = w.source? k' := by
  rw [add] at h
  cases hheld : w.get? k with
  | none =>
    rw [hheld] at h
    cases h
  | some held => exact firstSource?_of_held hheld a k'

theorem source?_addAll (h : w.addAll (Pending.merge cap) l = .ok w') (k : Key) :
    w'.source? k = (w.source? k).or (firstSource? k l) := by
  induction l generalizing w with
  | nil =>
    cases h
    exact Option.or_none.symm
  | cons x l ih =>
    obtain ⟨w₁, hadd, h⟩ := bind_eq_ok.1 h
    rw [ih h, source?_add hadd, firstSource?_cons k x l, Option.or_assoc]

theorem source?_addEach (w : Window Key Pending) (l : List Entry) (k : Key) :
    (w.addEach (Pending.merge cap) l).source? k = (w.source? k).or (firstSource? k l) := by
  induction l generalizing w with
  | nil => exact Option.or_none.symm
  | cons x l ih =>
    rw [addEach, firstSource?_cons, ← Option.or_assoc]
    split
    · next w₁ hadd => rw [ih, source?_add hadd]
    · next f hadd => rw [ih, source?_of_add_error hadd]

end Window

/-! ## What a message brings -/

/-- Whether an event resolves at a processor and has a key there. -/
def Event.Brings (registry : Registry) (tables : Tables) (id : ProcessorId) (k : Key)
    (e : Event) : Prop :=
  (e.resolveAt registry id.kind id.interval).isOk = true ∧ k ∈ e.keysIn registry tables

instance (registry : Registry) (tables : Tables) (id : ProcessorId) (k : Key) (e : Event) :
    Decidable (e.Brings registry tables id k) := by
  unfold Event.Brings
  infer_instance

/-- The first event that a message brings for a key. -/
def Message.first? (registry : Registry) (tables : Tables) (id : ProcessorId) (k : Key) :
    Message → Option Event
  | .events es => es.find? fun e => e.Brings registry tables id k
  | .rollups es => Window.firstSource? k es

/-- The pieces of messages that a worker handled since entries left its window last, after another
page. -/
def Diary.since (held : List Message) (page : Diary) : List Message :=
  if page.drained.isEmpty then held ++ page.handled else []

theorem Diary.since_add (held taken handled : List Message) (page : Diary) :
    (({ taken, handled } : Diary).add page).since held = page.since (held ++ handled) := by
  simp [Diary.since, Diary.add]

/-- What a worker has for a key in its window is of the first event for it in messages. -/
def Worker.Credits (registry : Registry) (tables : Tables) (id : ProcessorId)
    (held : List Message) (w : Worker) : Prop :=
  ∀ k, w.window.source? k = held.findSome? (Message.first? registry tables id k)

/-- The rejection of an event that is to blame for a failure. -/
def Flush.rejection (processor : String) (x : Source × Fault) : BadEvent :=
  { event := x.1.event, reason := x.2.message, processor }

namespace Bench

variable {heard : Event → Prop} {registry : Registry} {names : List String}
  {d : Dictionary Tables} {p : Post} {b b' : Bench} {m : Message} {pieces : List Message}

/-- What handling pieces of messages does about blame: what is new for a key in the window is the
first that they bring for it, and rejected are events that do not resolve. -/
structure Handled (registry : Registry) (p : Post) (pieces : List Message) (b b' : Bench) :
    Prop where
  grows : b.shared.dictionary.store.Extends b'.shared.dictionary.store
  source? {tables : Tables} : b'.shared.dictionary.store.Extends tables → ∀ k,
    b'.worker.window.source? k = (b.worker.window.source? k).or
      (pieces.findSome? (Message.first? registry tables p.id.processor k))
  rejected : ∃ bads, b'.shared.badEvents = b.shared.badEvents.addAll bads ∧ ∀ bad ∈ bads,
    ∃ e ∈ pieces.flatMap Message.raw, ∃ f,
      e.resolveAt registry p.id.processor.kind p.id.processor.interval = .error f ∧
        bad = { event := e, reason := f.message, processor := p.id.processor.name }

/-- What messages bring comes after what was handled before. -/
theorem Handled.credits (h : Handled registry p pieces b b') {tables : Tables}
    {held : List Message} (hext : b'.shared.dictionary.store.Extends tables)
    (hcredits : b.worker.Credits registry tables p.id.processor held) :
    b'.worker.Credits registry tables p.id.processor (held ++ pieces) := by
  intro k
  rw [h.source? hext, List.findSome?_append, ← hcredits k]

section

variable (hproper : registry.Proper) (hnames : ∀ e, heard e → ∀ n ∈ e.mentions, n ∈ names)
include hproper hnames

theorem handled_event
    (hb : b.Bears (sourcedMark heard registry) heard (Shared.Grown registry names d) p.id.processor)
    {e : Event} (he : heard e) : Handled registry p [.events [e]] b (b.handleEvent p e) := by
  have hregistry : b.shared.registry.Proper := hb.shared.registry ▸ hproper
  cases hs : e.resolveAt b.shared.registry p.id.processor.kind p.id.processor.interval with
  | error f =>
    have hreject : b.handleEvent p e = b.reject p e f := by rw [handleEvent, mapEvent, hs]
    rw [hb.shared.registry] at hs
    rw [hreject]
    refine ⟨.refl _, fun {tables} _ k => ?_, [_], rfl,
      List.forall_mem_singleton.2 ⟨e, List.mem_singleton_self e, f, hs, rfl⟩⟩
    simp [reject, Message.first?, Event.Brings, hs, Except.isOk, Except.toBool]
  | ok s =>
    obtain ⟨d', hmap, hc, hknown⟩ := mapEvent_keys hregistry hb.shared.dictionary.sound
      hb.shared.dictionary.room hs (hnames e he) b.shared.cap
    have hown : b.HasOwn p.id.processor :=
      ⟨hb.shared.arranged, (hb.worker.imp fun h => h.1).imp_heard fun _ _ => trivial⟩
    obtain ⟨window, hadd, hwindow⟩ := admits_of_own rfl hown e _ (congrArg Prod.fst hmap)
    rw [hb.shared.registry] at hs hmap hadd
    have hshared : (b.handleEvent p e).shared.dictionary = d' ∧
        (b.handleEvent p e).shared.badEvents = b.shared.badEvents := by
      rw [handleEvent]
      simp only [hb.shared.registry, hmap, hadd, and_self]
    refine ⟨hshared.1 ▸ hc.extends_, fun {tables} hext k => ?_, [], hshared.2,
      fun _ hbad => absurd hbad List.not_mem_nil⟩
    have hkeys := Event.keysIn_of_extends hproper (hshared.1 ▸ hext) hknown
    have hmem : k ∈ ((e.keysIn registry d'.store).map fun k =>
        (k, Aggregate.ofEvent b.shared.cap e)).map Prod.fst ↔ k ∈ e.keysIn registry tables := by
      rw [hkeys, List.map_map]
      exact List.map_id _ ▸ .rfl
    have hbrings : e.Brings registry tables p.id.processor k ↔ k ∈ e.keysIn registry tables := by
      rw [Event.Brings, hs]
      exact and_iff_right rfl
    rw [hwindow, Window.source?_addAll hadd, Window.firstSource?_of_event,
      List.findSome?_singleton]
    by_cases hk : k ∈ e.keysIn registry tables
    · rw [if_pos (hmem.2 hk), Message.first?, List.find?_cons_of_pos (by simpa [hbrings] using hk)]
    · rw [if_neg (mt hmem.1 hk), Message.first?,
        List.find?_cons_of_neg (by simpa [hbrings] using hk), List.find?_nil]

end

/-! ## What a flush rejects -/

/-- What a worker still has to reject, and what it rejects, is to blame for entries of a list. -/
structure Blames (p : Post) (given : List (Source × Fault)) (b b' : Bench) : Prop where
  sent : ∃ bads, b'.shared.badEvents = b.shared.badEvents.addAll bads ∧
    ∀ bad ∈ bads, ∃ x ∈ given, bad = Flush.rejection p.id.processor.name x
  blamed : ∀ x ∈ b'.worker.activity.blamed, x ∈ given

variable {trigger : Trigger} {f : Flush}

theorem round_blames (p : Post) (b : Bench) (trigger : Trigger) (f : Flush) :
    Blames p (f.givenUp ++ (b.roundPage p f).givenUp.map Flush.blame) b (b.round p trigger f) := by
  rw [round, roundPage]
  generalize b.shared.store.mergeBatch f.requests = outcome
  obtain ⟨results, store⟩ := outcome
  cases results with
  | none =>
    exact ⟨⟨[], rfl, fun _ hbad => absurd hbad List.not_mem_nil⟩,
      fun _ hx => absurd hx List.not_mem_nil⟩
  | some results =>
    have hgiven : (f.afterRound p.settings.flushRetry results).givenUp = f.givenUp ++
        (Flush.abandoned p.settings.flushRetry f.round (f.answered results)).map Flush.blame := by
      rw [Flush.afterRound, Flush.givenUpOf_judged]
    dsimp only
    rw [← hgiven]
    split
    · refine ⟨⟨_, rfl, fun bad hbad => ?_⟩, fun _ hx => absurd hx List.not_mem_nil⟩
      obtain ⟨x, hx, rfl⟩ := List.mem_map.1 hbad
      exact ⟨x, (Flush.firstReasons_sublist _ _).subset hx, rfl⟩
    · exact ⟨⟨[], rfl, fun _ hbad => absurd hbad List.not_mem_nil⟩, fun _ hx => hx⟩

theorem flush_blames (p : Post) (b : Bench) (trigger : Trigger) :
    Blames p ((b.flushPage p).givenUp.map Flush.blame) b (b.flush p trigger) := by
  let emptied : Bench :=
    { b with worker := { b.worker with window := (b.worker.window.drain b.shared.now).2 } }
  rw [flush, flushPage]
  dsimp only [Window.drain]
  cases b.shared.arrange b.worker.window.entries.toList with
  | nil =>
    obtain ⟨lastPurge, hworker, _⟩ := afterFlush_worker p emptied trigger
    have hblamed : (emptied.afterFlush p trigger).worker.activity.blamed = [] := by
      rw [hworker, Trigger.blamed_next]
    exact ⟨⟨[], badEvents_afterFlush p emptied trigger,
      fun _ hbad => absurd hbad List.not_mem_nil⟩, fun x hx => absurd (hblamed ▸ hx)
      List.not_mem_nil⟩
  | cons x batch =>
    have hround := round_blames p emptied trigger (.ofBatch (x :: batch))
    have hnone : (Flush.ofBatch (x :: batch)).givenUp = [] := rfl
    have hpage : (({ drained := b.worker.window.entries.toList } : Diary).add
        (b.roundPage p (.ofBatch (x :: batch)))).givenUp =
          (emptied.roundPage p (.ofBatch (x :: batch))).givenUp := List.nil_append _
    rw [hnone, List.nil_append] at hround
    dsimp only
    rw [hpage]
    exact ⟨hround.sent, hround.blamed⟩

/-! ## What a flush leaves to credit -/

/-- What a worker handled before a flush is not in the window after it. -/
theorem credits_flush {registry : Registry} {tables : Tables} {id : ProcessorId}
    {held : List Message} (h : b.worker.Credits registry tables id held) (p : Post)
    (trigger : Trigger) :
    (b.flush p trigger).worker.Credits registry tables id ((b.flushPage p).since held) := by
  intro k
  obtain ⟨-, hhandled, hdrained⟩ := flushPage_reads p b
  rw [Window.source?_of_empty (entries_flush p b trigger), Diary.since, hhandled, hdrained]
  split
  · next hempty =>
    rw [List.append_nil, ← h k]
    refine (Option.map_eq_none_iff.2 (Option.eq_none_iff_forall_ne_some.2 fun a ha => ?_)).symm
    have hmem : (k, a) ∈ b.worker.window.entries.toList :=
      Std.TreeMap.mem_toList_iff_getElem?_eq_some.2 ha
    rw [List.isEmpty_iff.1 hempty] at hmem
    cases hmem
  · rfl

/-! ## A whole turn -/

/-- What a turn does about blame, with its page in the diary. -/
structure Attributes (registry : Registry) (p : Post) (page : Diary) (b b' : Bench) : Prop where
  /-- Rejected are events that do not resolve, and then events that are to blame for entries that
  were given up in this flush. -/
  rejected : ∃ refused sent, b'.shared.badEvents = (b.shared.badEvents.addAll refused).addAll sent ∧
    (∀ bad ∈ refused, ∃ e ∈ page.handled.flatMap Message.raw, ∃ f,
      e.resolveAt registry p.id.processor.kind p.id.processor.interval = .error f ∧
        bad = { event := e, reason := f.message, processor := p.id.processor.name }) ∧
    ∀ bad ∈ sent, ∃ x ∈ b.worker.activity.blamed ++ page.givenUp.map Flush.blame,
      bad = Flush.rejection p.id.processor.name x
  /-- Nothing else is still to be rejected. -/
  blamed : ∀ x ∈ b'.worker.activity.blamed,
    x ∈ b.worker.activity.blamed ++ page.givenUp.map Flush.blame
  /-- What the window has for a key is of the first event that the worker handled for it since
  entries left the window last. -/
  first {tables : Tables} {held : List Message} : b'.shared.dictionary.store.Extends tables →
    b.worker.Credits registry tables p.id.processor held →
    b'.worker.Credits registry tables p.id.processor (page.since held)

theorem Blames.attributes {given : List (Source × Fault)} {page : Diary} (h : Blames p given b b')
    (hgiven : ∀ x ∈ given, x ∈ b.worker.activity.blamed ++ page.givenUp.map Flush.blame)
    (hfirst : ∀ {tables : Tables} {held : List Message},
      b'.shared.dictionary.store.Extends tables →
      b.worker.Credits registry tables p.id.processor held →
      b'.worker.Credits registry tables p.id.processor (page.since held)) :
    Attributes registry p page b b' := by
  obtain ⟨bads, heq, hbads⟩ := h.sent
  refine ⟨⟨[], bads, heq, fun _ hbad => absurd hbad List.not_mem_nil, fun bad hbad => ?_⟩,
    fun x hx => hgiven x (h.blamed x hx), hfirst⟩
  obtain ⟨x, hx, rfl⟩ := hbads bad hbad
  exact ⟨x, hgiven x hx, rfl⟩

theorem flush_attributes (registry : Registry) (p : Post) (b : Bench) (trigger : Trigger) :
    Attributes registry p (b.flushPage p) b (b.flush p trigger) :=
  (flush_blames p b trigger).attributes (fun _ => List.mem_append_right _)
    fun _ hcredits => credits_flush hcredits p trigger

theorem round_attributes (registry : Registry) (p : Post)
    {due : Nat} (hactivity : b.worker.activity = .backingOff trigger f due)
    (hempty : b.worker.window.entries = {}) :
    Attributes registry p (b.roundPage p f) b (b.round p trigger f) := by
  obtain ⟨-, hhandled, hdrained⟩ := roundPage_reads p b f
  refine (round_blames p b trigger f).attributes (fun x hx => ?_)
    fun {tables held} _ hcredits k => ?_
  · rwa [hactivity]
  · rw [Diary.since, hhandled, hdrained, List.append_nil]
    show _ = held.findSome? _
    rw [← hcredits k, Window.source?_of_empty (entries_round p trigger f hempty),
      Window.source?_of_empty hempty]

/-- A worker handles pieces of messages. -/
theorem Handled.attributes (h : Handled registry p pieces b b') (taken : List Message)
    (hnone : b'.worker.activity.blamed = []) :
    Attributes registry p { taken, handled := pieces } b b' := by
  obtain ⟨bads, hbads, hrejected⟩ := h.rejected
  refine ⟨⟨bads, [], hbads, hrejected, fun _ hbad => absurd hbad List.not_mem_nil⟩, ?_,
    fun hext hcredits => h.credits hext hcredits⟩
  rw [hnone]
  exact fun _ hx => absurd hx List.not_mem_nil

/-- A worker handles pieces of messages, and flushes then. -/
theorem Handled.attributes_flush (h : Handled registry p pieces b b') (taken : List Message)
    (trigger : Trigger) :
    Attributes registry p (({ taken, handled := pieces } : Diary).add (b'.flushPage p)) b
      (b'.flush p trigger) := by
  obtain ⟨bads, hbads, hrejected⟩ := h.rejected
  obtain ⟨⟨sent, heq, hsent⟩, hleft⟩ := flush_blames p b' trigger
  obtain ⟨-, hnone, -⟩ := flushPage_reads p b'
  have hdictionary : (b'.flush p trigger).shared.dictionary = b'.shared.dictionary :=
    congrArg Prod.snd (names_flush p b' trigger)
  refine ⟨⟨bads, sent, heq.trans (by rw [hbads]), ?_, fun bad hbad => ?_⟩, fun x hx => ?_,
    fun {tables held} hext hcredits => ?_⟩
  · simpa [Diary.add, hnone] using hrejected
  · obtain ⟨x, hx, rfl⟩ := hsent bad hbad
    exact ⟨x, List.mem_append_right _ hx, rfl⟩
  · exact List.mem_append_right _ (hleft x hx)
  · rw [Diary.since_add]
    rw [hdictionary] at hext
    exact credits_flush (h.credits hext hcredits) p trigger

/-- A worker handles the last piece of a message. -/
theorem Handled.attributes_finish (h : Handled registry p pieces b b') (taken : List Message) :
    Attributes registry p (({ taken, handled := pieces } : Diary).add (b'.finishPage p)) b
      (b'.finishMessage p) := by
  have hwaits : Handled registry p pieces b
      { b' with worker := { b'.worker with activity := .waiting } } :=
    ⟨h.grows, h.source?, h.rejected⟩
  rw [finishMessage, finishPage]
  dsimp only
  split
  · exact hwaits.attributes_flush taken .size
  · rw [Diary.add_empty]
    exact hwaits.attributes taken rfl

/-- A worker takes a message before it handles pieces of it. -/
theorem Attributes.of_takeUp {page : Diary} {rest : List Message}
    (h : Attributes registry p page (b.takeUp m rest) b') :
    Attributes registry p (({ taken := [m] } : Diary).add page) b b' := by
  obtain ⟨⟨refused, sent, heq, hrefused, hsent⟩, hblamed, hfirst⟩ := h
  refine ⟨⟨refused, sent, heq, hrefused, fun bad hbad => ?_⟩, fun x hx => ?_, hfirst⟩
  · obtain ⟨x, hx, rfl⟩ := hsent bad hbad
    exact ⟨x, List.mem_append_right _ hx, rfl⟩
  · exact List.mem_append_right _ (hblamed x hx)

section

variable (hproper : registry.Proper) (hnames : ∀ e, heard e → ∀ n ∈ e.mentions, n ∈ names)
include hproper hnames

/-- A worker handles the next event of a message. -/
theorem handleNext_attributes
    (hb : b.Bears (sourcedMark heard registry) heard (Shared.Grown registry names d) p.id.processor)
    {events : List Event} (hhandling : b.worker.activity = .handling events) :
    Attributes registry p (b.nextPage p events) b (b.handleNext p events) := by
  cases events with
  | nil =>
    have hnothing : Handled registry p [] b b :=
      ⟨.refl _, fun _ _ => Option.or_none.symm, [], rfl, fun _ hbad => absurd hbad List.not_mem_nil⟩
    have hfinish := hnothing.attributes_finish []
    rwa [Diary.empty_add] at hfinish
  | cons e rest =>
    have hevents := hb.worker.activity
    rw [hhandling] at hevents
    obtain ⟨he, hrest⟩ := List.forall_mem_cons.1 hevents
    let taken : Bench := { b with worker := { b.worker with activity := .handling rest } }
    have htaken : taken.Bears (sourcedMark heard registry) heard (Shared.Grown registry names d)
        p.id.processor := ⟨hb.shared, hb.worker.mailbox, hb.worker.window, hrest⟩
    obtain ⟨hgrows, hsource, hrejected⟩ := handled_event hproper hnames htaken he
    have hhandled : Handled registry p [.events [e]] b (taken.handleEvent p e) :=
      ⟨hgrows, hsource, hrejected⟩
    rw [handleNext, nextPage]
    dsimp only
    split
    · exact hhandled.attributes_finish []
    · obtain ⟨⟨window, hworker⟩, -⟩ := handleEvent_eq p taken e
      rw [Diary.add_empty]
      exact hhandled.attributes [] (by rw [hworker]; rfl)

/-- A worker that receives a message handles the first piece of it, and may flush then. -/
theorem receive_attributes
    (hb : b.Bears (sourcedMark heard registry) heard (Shared.Grown registry names d) p.id.processor)
    (hwaiting : b.worker.activity = .waiting) {rest : List Message}
    (hqueue : b.worker.mailbox.queue = m :: rest) :
    Attributes registry p (b.receivePage p m rest) b (b.receive p m rest) := by
  cases m with
  | events events =>
    have htakes : Step p false _ b (b.takeUp (.events events) rest) := .takes hwaiting hqueue
    have htaken := (htakes.bears (kept_sourced hproper hnames) rfl hb).1.bears
    exact (handleNext_attributes hproper hnames htaken rfl).of_takeUp
  | rollups entries =>
    have hhandled : Handled registry p [.rollups entries] b
        ((b.takeUp (.rollups entries) rest).handleRollups p entries) := by
      refine ⟨.refl _, fun {tables} _ k => ?_, [], rfl, fun _ hbad => absurd hbad List.not_mem_nil⟩
      rw [List.findSome?_singleton]
      exact Window.source?_addEach b.worker.window entries k
    exact hhandled.attributes_finish [.rollups entries]

/-- What a worker does about blame in a turn by itself. -/
theorem turn_attributes
    (hb : b.Bears (sourcedMark heard registry) heard (Shared.Grown registry names d) p.id.processor)
    (htidy : b.worker.Tidy) {stopping : Bool} (h : b.turn p stopping = some b') :
    Attributes registry p (b.turnPage p stopping) b b' := by
  obtain ⟨hwaiting, -, hpage, rfl⟩ | ⟨m, rest, hwaiting, hqueue, hpage, rfl⟩ |
    ⟨events, hhandling, hpage, rfl⟩ | ⟨trigger, _, _, hpage, rfl⟩ |
    ⟨trigger, f, due, hactivity, hpage, rfl⟩ := turn_cases h
  · rw [hpage]
    refine ⟨⟨[], [], rfl, fun _ hbad => absurd hbad List.not_mem_nil,
      fun _ hbad => absurd hbad List.not_mem_nil⟩, fun x => List.mem_append_left _,
      fun {tables held} _ hcredits => ?_⟩
    have hsince : ({} : Diary).since held = held := List.append_nil held
    rw [hsince]
    exact hcredits
  · rw [hpage]
    exact receive_attributes hproper hnames hb hwaiting hqueue
  · rw [hpage]
    exact handleNext_attributes hproper hnames hb hhandling
  · rw [hpage]
    exact flush_attributes registry p b trigger
  · rw [hpage]
    refine round_attributes registry p hactivity (htidy.busy ?_)
    rw [hactivity]
    rfl

end

end Bench

end StatRollup
