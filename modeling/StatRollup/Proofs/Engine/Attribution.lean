import StatRollup.Proofs.Engine.Blame
import StatRollup.Proofs.Engine.Following

/-!
# Bad events are blamed correctly

A worker that gives an entry up blames the entry's source.  The aggregate of the entry was made of
events that all have its key, at whatever interval it has arrived, and the source is the first of
them (`Sourced`).  So a bad event that a flush sends contributed to a key that could not be written
(`Plant.blamed_correctly`).

What a worker rejects depends on what it did in earlier turns.  Therefore a worker is followed
through a run (`Plant.Sound.follows_step`), and the books of blame are kept whatever it was before
(`Plant.Traced.step`).
-/

namespace StatRollup

open Uid (Dictionary Tables)

/-- An event that resolves at a processor resolves to one definition with all events that have its
key, so these have it there, too. -/
theorem Event.brings_of_hasKey {registry : Registry} {d : Dictionary Tables} {id : ProcessorId}
    {k : Key} {e e' : Event} (hproper : registry.Proper) (hd : d.Sound)
    (h : e.Brings registry d.store id k) (h' : e'.HasKey registry d.store k) :
    e'.Brings registry d.store id k := by
  obtain ⟨hok, hk⟩ := h
  obtain ⟨own, hown, _, hself⟩ := h'.own
  have hname : e'.name = e.name :=
    hd.injective h'.statistic (Event.hasKey_of_mem hproper hk).statistic
  obtain ⟨s, hs, hinterval⟩ := Event.interval_of_mem_keysIn hk
  obtain ⟨s', hs', hinterval'⟩ := Event.interval_of_mem_keysIn hown
  obtain rfl : s' = s := by
    have hget := (Event.of_resolve hs').1
    rw [hname, (Event.of_resolve hs).1] at hget
    exact (Option.some.inj hget).symm
  cases hat : e.resolveAt registry id.kind id.interval with
  | error f =>
    rw [hat] at hok
    cases hok
  | ok s =>
    obtain ⟨hresolve, hkind, hprecision⟩ := Event.of_resolveAt hat
    cases hs.symm.trans hresolve
    have hat' := Event.resolveAt_ok hs'
    rw [hkind, hprecision] at hat'
    refine ⟨by rw [hat']; rfl, ?_⟩
    obtain ⟨_, _, keys, _, _, hkeys, hmem⟩ := Event.of_mem_keysIn hown
    have hstay := (Key.of_build hkeys hmem).2.2
    rw [hinterval, ← hinterval', hstay] at hself
    exact hself ▸ hown

/-- The first event that raw messages bring for a key. -/
theorem Message.findSome?_first? {registry : Registry} {tables : Tables} {id : ProcessorId}
    {k : Key}
    {held : List Message} (hraw : ∀ m ∈ held, m.keyed = []) :
    held.findSome? (Message.first? registry tables id k) =
      (held.flatMap Message.raw).find? fun e => e.Brings registry tables id k := by
  induction held with
  | nil => rfl
  | cons m held ih =>
    obtain ⟨hm, hheld⟩ := List.forall_mem_cons.1 hraw
    rw [List.findSome?_cons, List.flatMap_cons, List.find?_append, ih hheld]
    cases m with
    | events es =>
      cases h : es.find? fun e => e.Brings registry tables id k <;> simp [first?, raw, h]
    | rollups es =>
      cases hm
      rfl

namespace Plant

variable {first : Engine} {s : Plant} {slot : Slot}

/-! ## The record of one worker -/

section

variable {s' : Plant} {page : Diary}

/-- The pieces of messages that a worker handled since entries left its window last. -/
def sinceDrain (s : Plant) (slot : Slot) : List Message :=
  ((s.pages.filter fun x => x.1 = slot).map Prod.snd).foldl Diary.since []

theorem sinceDrain_append (h : s'.pages = s.pages ++ [(slot, page)]) :
    s'.sinceDrain slot = page.since (s.sinceDrain slot) := by
  simp [sinceDrain, h, List.filter_append]

end

/-! ## In every run -/

/-- The books of blame: entries are made of events with their keys, windows are credited to the
first of them, and what is still to be rejected was given up. -/
structure Traced (heard : Event → Prop) (registry : Registry) (names : List String) (s : Plant) :
    Prop where
  bears : s.Bears (sourcedMark heard registry) heard
    (Shared.Grown registry names s.engine.shared.dictionary)
  recent : ∀ x ∈ s.pages, x.1.serial < s.engine.nextSerial
  credits {slot : Slot} {worker : Worker} {tables : Tables} :
    s.engine.workerAt? slot = some worker → s.engine.shared.dictionary.store.Extends tables →
      worker.Credits registry tables slot.processor (s.sinceDrain slot)
  blamed {slot : Slot} {worker : Worker} : s.engine.workerAt? slot = some worker →
    ∀ x ∈ worker.activity.blamed, x ∈ (s.diary slot).givenUp.map Flush.blame

section

variable {heard : Event → Prop} {registry : Registry} {names : List String} {worker : Worker}
  (hproper : registry.Proper) (hnames : ∀ e, heard e → ∀ n ∈ e.mentions, n ∈ names)
include hproper hnames

omit hproper hnames in
/-- A worker that did not exist has no pages. -/
theorem Traced.pages_of_unused (h : s.Traced heard registry names)
    (hunused : s.engine.nextSerial ≤ slot.serial) :
    (s.pages.filter fun x => x.1 = slot) = [] := by
  refine List.filter_eq_nil_iff.2 fun x hx hslot => ?_
  have hlt := h.recent x hx
  rw [of_decide_eq_true hslot] at hlt
  exact absurd hlt (Nat.not_lt.2 hunused)

/-- What a worker does about blame in a turn by itself. -/
theorem Traced.attributes (h : s.Traced heard registry names) (hsound : s.Sound first)
    (found : s.engine.workerAt? slot = some worker) {p : Processor} {c : Crew} {b : Bench}
    (hp : s.engine.processor? slot.processor = some p)
    (hturn : (Bench.mk s.engine.shared p.stats worker).turn (p.post slot.partition) c.isStopping =
      some b) :
    Bench.Attributes registry (p.post slot.partition)
      ((Bench.mk s.engine.shared p.stats worker).turnPage (p.post slot.partition) c.isStopping)
      ⟨s.engine.shared, p.stats, worker⟩ b := by
  have hid : (p.post slot.partition).id.processor = slot.processor := Engine.id_of_processor? hp
  have hheld := h.bears.engine.at_slot found
  rw [← hid] at hheld
  exact Bench.turn_attributes hproper hnames ⟨h.bears.engine.shared, hheld⟩
    ((hsound.account slot).tidy found) hturn

omit hproper hnames in
/-- A page is of a worker that was there. -/
theorem Traced.recent_step (h : s.Traced heard registry names) (hsound : s.Sound first)
    (m : Move) : ∀ x ∈ (s.step m).pages, x.1.serial < (s.step m).engine.nextSerial := by
  intro x hx
  have hle := hsound.nextSerial_le m
  obtain hsame | ⟨w, own, page, hslot, hpages⟩ := pages_step s m
  · exact Nat.lt_of_lt_of_le (h.recent x (hsame ▸ hx)) hle
  · rw [hpages] at hx
    rcases List.mem_append.1 hx with hx | hx
    · exact Nat.lt_of_lt_of_le (h.recent x hx) hle
    · obtain rfl := List.mem_singleton.1 hx
      obtain ⟨c, hc, rfl⟩ := Option.map_eq_some_iff.1 hslot
      exact Nat.lt_of_lt_of_le (hsound.engine.serial hc) hle

/-- A window is credited as it was before, or as a turn leaves it. -/
theorem Traced.credits_of_follows (h : s.Traced heard registry names) (hsound : s.Sound first)
    (hfollows : Follows s s' slot worker)
    (hext : s.engine.shared.dictionary.store.Extends s'.engine.shared.dictionary.store)
    {tables : Tables} (htables : s'.engine.shared.dictionary.store.Extends tables) :
    worker.Credits registry tables slot.processor (s'.sinceDrain slot) := by
  cases hfollows with
  | new hempty _ hunused hpages =>
    intro k
    rw [Window.source?_of_empty hempty, sinceDrain, hpages, h.pages_of_unused hunused]
    rfl
  | @stays before hfound hwindow _ hpages =>
    have hbefore := h.credits hfound (hext.trans htables)
    intro k
    rw [hwindow, sinceDrain, hpages]
    exact hbefore k
  | @turns before shared hfound hown hpages hshared =>
    have hbefore := h.credits hfound (hext.trans htables)
    rw [sinceDrain_append hpages]
    cases hown with
    | @bench p c b hp hturn hpage hworker hshared' =>
      have hafter := h.attributes hproper hnames hsound hfound hp hturn
      have hid : (p.post slot.partition).id.processor = slot.processor :=
        Engine.id_of_processor? hp
      subst hworker
      rw [hshared, hshared'] at htables
      rw [← hid] at hbefore
      rw [hpage]
      exact hid ▸ hafter.first htables hbefore
    | passing _ _ hworker hpage _ =>
      have hsince : (s.engine.page slot.worker).since (s.sinceDrain slot) = s.sinceDrain slot := by
        rw [hpage]
        exact List.append_nil _
      subst hworker
      rw [hsince]
      exact hbefore

/-- What is still to be rejected was given up before, or in a turn. -/
theorem Traced.blamed_of_follows (h : s.Traced heard registry names) (hsound : s.Sound first)
    (hfollows : Follows s s' slot worker) :
    ∀ x ∈ worker.activity.blamed, x ∈ (s'.diary slot).givenUp.map Flush.blame := by
  cases hfollows with
  | new _ hwaiting _ _ =>
    rw [hwaiting]
    exact fun _ hx => absurd hx List.not_mem_nil
  | @stays before hfound _ hactivity hpages =>
    rw [hactivity, diary, hpages]
    exact h.blamed hfound
  | @turns before shared hfound hown hpages hshared =>
    have hbefore := h.blamed hfound
    have hmore : (s'.diary slot).givenUp =
        (s.diary slot).givenUp ++ (s.engine.page slot.worker).givenUp := by
      rw [diary_append hpages, if_pos rfl]
      rfl
    rw [hmore, List.map_append]
    cases hown with
    | @bench p c b hp hturn hpage hworker _ =>
      have hafter := (h.attributes hproper hnames hsound hfound hp hturn).blamed
      subst hworker
      rw [hpage]
      intro x hx
      rcases List.mem_append.1 (hafter x hx) with hx | hx
      · exact List.mem_append_left _ (hbefore x hx)
      · exact List.mem_append_right _ hx
    | passing _ hnone hworker _ _ =>
      subst hworker
      rw [show (_ : Activity).blamed = [] from hnone]
      exact fun _ hx => absurd hx List.not_mem_nil

theorem Traced.step (h : s.Traced heard registry names) (hsound : s.Sound first)
    (hforward : ∀ id, first.forward? id ≠ some id) (m : Move)
    (hheard : ∀ event ∈ (s.step m).accepted, heard event)
    (hshare : ∀ shared, m = .share shared → shared.1.registry = s.engine.shared.registry ∧
      s.engine.shared.dictionary.Creates names shared.1.dictionary) :
    (s.step m).Traced heard registry names := by
  have hbears := h.bears.step (kept_sourced hproper hnames) m hheard fun shared hm =>
    have hcreates := (hshare shared hm).2
    ⟨⟨(hshare shared hm).1.trans h.bears.engine.shared.registry, hcreates, shared.2⟩,
      fun hmark => ⟨hmark.1, hmark.2.mono hproper hcreates.extends_⟩⟩
  refine ⟨⟨⟨hbears.engine.shared.rebase, hbears.engine.forward, hbears.engine.workers⟩,
    hbears.givenUp⟩, h.recent_step hsound m, fun hw htables => ?_, fun hw => ?_⟩
  · exact h.credits_of_follows hproper hnames hsound (hsound.follows_step hforward m hw)
      hbears.engine.shared.dictionary.extends_ htables
  · exact h.blamed_of_follows hproper hnames hsound (hsound.follows_step hforward m hw)

/-- In a run of processors that nobody had started, in which others only ask the dictionary for
names of a list and leave the definitions, blame is kept in order. -/
theorem traced_run {e : Engine} (hlaid : e.Laid)
    (hshared : e.shared.Grown registry names e.shared.dictionary) {moves : List Move}
    (hallows : Allows (fun before after => after.registry = before.registry ∧
      before.dictionary.Creates names after.dictionary) { engine := e } moves)
    (hheard : ∀ event ∈ (run { engine := e } moves).accepted, heard event) :
    (run { engine := e } moves).Traced heard registry names := by
  have hstart : Traced heard registry names { engine := e } := by
    have hidle : ∀ {slot : Slot}, e.workerAt? slot = none := fun {slot} => by
      rw [Engine.workerAt?, hlaid.fresh.idle]
      rfl
    exact ⟨bears_of_laid hlaid hshared, fun _ hx => absurd hx List.not_mem_nil,
      fun hw => absurd (hidle.symm.trans hw) (by simp),
      fun hw => absurd (hidle.symm.trans hw) (by simp)⟩
  refine run_induction hstart fun before m after heq hbefore => ?_
  rw [run_concat]
  refine hbefore.step hproper hnames (sound_of_fresh hlaid.fresh before) hlaid.fresh.forward m
    (fun event hevent => hheard event ?_) fun shared hm => hallows before shared after (hm ▸ heq)
  rw [heq, List.append_cons]
  exact accepted_run_append (before ++ [m]) after event (run_concat _ before m ▸ hevent)

end

/-! ## Who is to blame -/

/-- Bad events are blamed correctly. -/
structure Attributed (registry : Registry) (s : Plant) : Prop where
  /-- All entries that a worker holds, in its window, its mailbox, a flush or on the way to the next
  processor, are made of accepted events with their key, and their source is the first of these. -/
  held {slot : Slot} {w : Worker} : s.engine.workerAt? slot = some w →
    w.Bears (fun _ => Sourced (· ∈ s.accepted) registry s.engine.shared.tables) (· ∈ s.accepted)
      slot.processor
  /-- When a worker handled only raw events since entries left its window last, the source of an
  entry is the first of them with the key. -/
  first {slot : Slot} {w : Worker} : s.engine.workerAt? slot = some w →
    (∀ m ∈ s.sinceDrain slot, m.keyed = []) → ∀ k p, w.window.get? k = some p →
      ∃ before after, (s.sinceDrain slot).flatMap Message.raw = before ++ p.source.event :: after ∧
        ∀ event ∈ before, ¬ event.HasKey registry s.engine.shared.tables k
  /-- In a turn a worker rejects events that it handles and that do not resolve at its processor,
  and then, when a flush is over, sources of entries that it has given up.  These are made of
  accepted events with their key, too, and the source is one of them. -/
  rejected {w : WorkerId} {slot : Slot} {e : Engine} : s.engine.slot? w = some slot →
    s.engine.turn w = some e → ∃ refused sent,
      e.shared.badEvents = (s.engine.shared.badEvents.addAll refused).addAll sent ∧
      (∀ bad ∈ refused, ∃ event ∈ (s.engine.page w).handled.flatMap Message.raw, ∃ f,
        event.resolveAt registry w.processor.kind w.processor.interval = .error f ∧
          bad = { event, reason := f.message, processor := w.processor.name }) ∧
      ∀ bad ∈ sent, ∃ k p f, ((k, p), f) ∈ ((s.turn w).diary slot).givenUp ∧
        Sourced (· ∈ s.accepted) registry e.shared.tables k p ∧
        bad = { event := p.source.event, reason := f.message, processor := w.processor.name }

section

variable {heard : Event → Prop} {registry : Registry} {names : List String}
  (hproper : registry.Proper) (hnames : ∀ e, heard e → ∀ n ∈ e.mentions, n ∈ names)
include hproper hnames

/-- What a worker rejects in a turn. -/
theorem Traced.rejected (h : s.Traced heard registry names) (hsound : s.Sound first)
    {w : WorkerId} {e : Engine} (hslot : s.engine.slot? w = some slot)
    (hturn : s.engine.turn w = some e) : ∃ refused sent,
      e.shared.badEvents = (s.engine.shared.badEvents.addAll refused).addAll sent ∧
      (∀ bad ∈ refused, ∃ event ∈ (s.engine.page w).handled.flatMap Message.raw, ∃ f,
        event.resolveAt registry w.processor.kind w.processor.interval = .error f ∧
          bad = { event, reason := f.message, processor := w.processor.name }) ∧
      ∀ bad ∈ sent, ∃ x ∈ (s.diary slot).givenUp ++ (s.engine.page w).givenUp,
        bad = Flush.rejection w.processor.name (Flush.blame x) := by
  obtain ⟨c, hc, rfl⟩ := Option.map_eq_some_iff.1 hslot
  obtain ⟨c', worker, hc', hworker, _, after, counted, shared, e₁, rfl, hturned⟩ :=
    hsound.turned hturn
  cases hc.symm.trans hc'
  have hfound : s.engine.workerAt? ⟨w.processor, c.serial, w.partition⟩ = some worker :=
    (Engine.workerAt?_of_crew? hc).trans hworker
  cases hturned.own with
  | @bench p c b hp hb hpage hafter hshared =>
    have hid : (p.post w.partition).id.processor = w.processor := Engine.id_of_processor? hp
    have hattributes := h.attributes hproper hnames hsound hfound hp hb
    obtain ⟨refused, sent, heq, hrefused, hsent⟩ := hattributes.rejected
    rw [hid] at hrefused hsent
    rw [hpage]
    refine ⟨refused, sent, ?_, hrefused, fun bad hbad => ?_⟩
    · rw [← heq, ← hshared]
      rfl
    · obtain ⟨x, hx, rfl⟩ := hsent bad hbad
      rcases List.mem_append.1 hx with hx | hx
      · obtain ⟨y, hy, rfl⟩ := List.mem_map.1 (h.blamed hfound x hx)
        exact ⟨y, List.mem_append_left _ hy, rfl⟩
      · obtain ⟨y, hy, rfl⟩ := List.mem_map.1 hx
        exact ⟨y, List.mem_append_right _ hy, rfl⟩
  | passing _ _ _ _ hbad =>
    exact ⟨[], [], hbad, fun _ hbad => absurd hbad List.not_mem_nil,
      fun _ hbad => absurd hbad List.not_mem_nil⟩

end

/-- In every run of a pipeline, with any failures of the store and in any order of submissions,
flushes, starts and stops, bad events are blamed correctly, as long as definitions stay and the
dictionary has room for all names that it is asked for. -/
theorem blamed_correctly {settings : Settings} {shared : Shared} {e : Engine} {names : List String}
    (hnew : Engine.pipeline settings shared = .ok e)
    (harranged : ∀ entries, (shared.arrange entries).Perm entries)
    (hproper : shared.registry.Proper) (hsound : shared.dictionary.Sound)
    (room : shared.dictionary.HasRoom names) (moves : List Move)
    (hallows : Allows (fun before after => after.registry = before.registry ∧
      before.dictionary.Creates names after.dictionary) { engine := e } moves)
    (hnames : ∀ event ∈ (run { engine := e } moves).accepted, ∀ n ∈ event.mentions, n ∈ names) :
    (run { engine := e } moves).Attributed shared.registry := by
  have hlaid := Engine.laid_pipeline hnew harranged
  have hshared : e.shared = shared := by rw [Engine.eq_of_pipeline hnew]
  have hgrown : e.shared.Grown shared.registry names e.shared.dictionary := by
    rw [hshared]
    exact ⟨rfl, .refl hsound room, harranged⟩
  have htraced := traced_run hproper hnames hlaid hgrown hallows fun _ => id
  have hbooks := sound_of_fresh hlaid.fresh moves
  refine ⟨fun hw => (htraced.bears.engine.at_slot hw).imp fun h => h.2,
    fun {slot w} hw hraw k p hp => ?_, fun {w slot e'} hslot hturn => ?_⟩
  · have hcredits := htraced.credits hw (.refl _) k
    rw [Message.findSome?_first? hraw, Window.source?, hp] at hcredits
    obtain ⟨hbrings, before, after, heq, hbefore⟩ :=
      List.find?_eq_some_iff_append.1 hcredits.symm
    refine ⟨before, after, heq, fun event hevent hkey => ?_⟩
    have hagain := Event.brings_of_hasKey hproper htraced.bears.engine.shared.dictionary.sound
      (of_decide_eq_true hbrings) hkey
    simpa [hagain] using hbefore event hevent
  · obtain ⟨refused, sent, heq, hrefused, hsent⟩ :=
      htraced.rejected hproper hnames hbooks hslot hturn
    refine ⟨refused, sent, heq, hrefused, fun bad hbad => ?_⟩
    obtain ⟨⟨⟨k, p⟩, f⟩, hx, rfl⟩ := hsent bad hbad
    have hafter := htraced.bears.turn (kept_sourced hproper hnames) w
    have hgivenUp : ((k, p), f) ∈ (((run { engine := e } moves).turn w).diary slot).givenUp := by
      rw [turn, hturn, hslot]
      dsimp only
      rw [diary_append rfl, if_pos rfl]
      exact hx
    obtain ⟨page, hpage, hmem⟩ := mem_givenUp_diary.1 hgivenUp
    have hmark := (hafter.givenUp _ hpage _ hmem).2
    have hengine : ((run { engine := e } moves).turn w).engine = e' := by rw [turn, hturn, hslot]
    rw [hengine] at hmark
    exact ⟨k, p, f, hgivenUp, hmark, rfl⟩

/-- The first write fails for good, and so the order that it was for is the only bad event; the
second order is written. -/
theorem blamed_correctly_orders :
    let outages : List Cells.Outage := [{ failure := .fault .aggregateMismatch, times := 1 }]
    let moves : List Move := Orders.relayMoves ++
      [.submit Orders.bySecond [Orders.order 1000], .deliver 1] ++
        List.replicate 4 (.turn Orders.worker)
    let s := run { engine := Orders.engineWith outages } moves
    s.Attributed (Orders.sharedWith outages).registry ∧
      s.engine.shared.badEvents.events.map (fun bad => bad.event.timestamp) = [0] ∧
      (s.diary Orders.slot).givenUp.length = 1 ∧ (s.diary Orders.slot).written.length = 1 := by
  intro outages moves s
  have hnew : Engine.pipeline Orders.settings (Orders.sharedWith outages) =
      .ok (Orders.engineWith outages) := rfl
  have hnobody : ∀ shared, Move.share shared ∉ moves := by
    simp [moves, Orders.relayMoves]
  have hroom : (Orders.sharedWith outages).dictionary.HasRoom ["orders"] := by
    unfold Uid.Dictionary.HasRoom
    decide +kernel
  have hnames : ∀ event ∈ s.accepted, ∀ n ∈ event.mentions, n ∈ ["orders"] := by
    decide +kernel
  refine ⟨blamed_correctly hnew (fun _ => .refl _) (Registry.proper_empty.insert _)
    (Uid.Dictionary.sound_new (by decide) _ _ _) hroom moves (allows_of_quiet hnobody) hnames,
    ?_, ?_, ?_⟩
  · decide +kernel
  · decide +kernel
  · decide +kernel

end Plant

end StatRollup
