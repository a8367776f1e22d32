import StatRollup.Proofs.Engine.Chain
import StatRollup.Proofs.Engine.Forwarding
import StatRollup.Proofs.Engine.Kinds

/-!
# Marks

A mark is a condition on the entries of a processor, which may depend on what workers share.  It is
kept (`Mark.Kept`) when the entries of a mapped event have it, merged entries have it, an entry that
is handed on has it at the next processor, and nothing that workers do to what they share takes it
away.  Then all entries that workers hold have it: in windows and mailboxes, in flushes and on the
way between them (`Plant.run_bears`).

Only the events in mailboxes are taken for granted (`heard`), and what others do to what workers
share between two moves (`Plant.Allows`).
-/

namespace StatRollup

variable {σ : Type} [Uid.Store σ]

/-- A condition on the entries of a processor. -/
abbrev Mark (σ : Type := Uid.Tables) [Uid.Store σ] := Shared σ → ProcessorId → Key → Pending → Prop

/-- From what workers share to what they share later: it fits again, and entries keep a mark. -/
structure Mark.Passes (mark : Mark σ) (fits : Shared σ → Prop) (s s' : Shared σ) : Prop where
  fits : fits s'
  carries {id : ProcessorId} {k : Key} {p : Pending} : mark s id k p → mark s' id k p

/-- What a worker shares after it mapped an event for a processor. -/
def Shared.mapped (s : Shared σ) (id : ProcessorId) (event : Event) : Shared σ :=
  { s with dictionary := (mapEvent s.registry s.dictionary s.cap id.kind id.interval event).2 }

/-- A mark that all work keeps, as long as what is shared fits. -/
structure Mark.Kept (mark : Mark σ) (heard : Event → Prop) (fits : Shared σ → Prop) : Prop where
  /-- Entries leave a window in some order. -/
  arranged {s : Shared σ} : fits s → ∀ entries, (s.arrange entries).Perm entries
  /-- Marked entries merge to a marked one. -/
  merged {s : Shared σ} {id : ProcessorId} {cap : Nat} {k : Key} {a b c : Pending} :
    mark s id k a → mark s id k b → a.merge cap b = .ok c → mark s id k c
  /-- A marked entry is one of the next processor, too. -/
  onward {s : Shared σ} {id j : ProcessorId} {k : Key} {p : Pending} : id.coarser? = some j →
    mark s id k p → mark s j (k.withInterval j.interval) p
  /-- Mapping passes. -/
  mapped {s : Shared σ} {event : Event} (id : ProcessorId) : fits s → heard event →
    mark.Passes fits s (s.mapped id event)
  /-- Mapping marks. -/
  maps {s : Shared σ} {event : Event} {id : ProcessorId} {pairs : List (Key × Aggregate)} :
    fits s → heard event →
    (mapEvent s.registry s.dictionary s.cap id.kind id.interval event).1 = .ok pairs →
    ∀ x ∈ pairs, ∀ handle, mark (s.mapped id event) id x.1 ⟨x.2, handle, event⟩
  /-- Bad events and handles do not matter. -/
  noted {s : Shared σ} (badEvents : BadEvents) (nextHandle : Nat) : fits s →
    mark.Passes fits s { s with badEvents, nextHandle }
  /-- Writing marked entries passes. -/
  written {s : Shared σ} {id : ProcessorId} {f : Flush} : fits s →
    (∀ x ∈ f.left, mark s id x.1 x.2) →
    mark.Passes fits s { s with store := (s.store.mergeBatch f.requests).2 }
  /-- Purging passes. -/
  purged {s : Shared σ} (interval : Interval) (cutoff : Timestamp) : fits s →
    mark.Passes fits s { s with store := (s.store.purge interval cutoff).2 }

namespace Mark.Passes

variable {mark : Mark σ} {fits : Shared σ → Prop} {s s' s'' : Shared σ}

theorem refl (h : fits s) : mark.Passes fits s s := ⟨h, id⟩

theorem trans (h : mark.Passes fits s s') (h' : mark.Passes fits s' s'') :
    mark.Passes fits s s'' := ⟨h'.fits, fun hm => h'.carries (h.carries hm)⟩

end Mark.Passes

/-! ## Windows -/

namespace Window

variable {κ α : Type} [Ord κ] [Std.TransOrd κ] [Std.LawfulEqOrd κ] {ok ok' : κ → α → Prop}
  {merge : α → α → Except Fault α} {w w' : Window κ α} {k : κ} {a : α} {l : List (κ × α)}

omit [Std.TransOrd κ] [Std.LawfulEqOrd κ] in
theorem All.imp (hw : w.All ok) (h : ∀ k a, ok k a → ok' k a) : w.All ok' :=
  fun k a hk => h k a (hw k a hk)

section

variable (hmerge : ∀ k a b c, ok k a → ok k b → merge a b = .ok c → ok k c)
include hmerge

theorem all_of_add (hw : w.All ok) (ha : ok k a) (h : w.add merge k a = .ok w') : w'.All ok := by
  rcases add_eq_ok.1 h with ⟨_, rfl⟩ | ⟨held, c, hk, hc, rfl⟩
  · exact all_put hw ha
  · exact all_put hw (hmerge k held a c (hw k held hk) ha hc)

theorem all_of_addAll (hw : w.All ok) (hl : ∀ x ∈ l, ok x.1 x.2)
    (h : w.addAll merge l = .ok w') : w'.All ok := by
  induction l generalizing w with
  | nil =>
    cases h
    exact hw
  | cons x l ih =>
    obtain ⟨hx, hl⟩ := List.forall_mem_cons.1 hl
    obtain ⟨w₁, hadd, h⟩ := bind_eq_ok.1 h
    exact ih (all_of_add hmerge hw hx hadd) hl h

theorem all_addEach (hw : w.All ok) (hl : ∀ x ∈ l, ok x.1 x.2) : (w.addEach merge l).All ok := by
  induction l generalizing w with
  | nil => exact hw
  | cons x l ih =>
    obtain ⟨hx, hl⟩ := List.forall_mem_cons.1 hl
    rw [addEach]
    split
    · next w₁ hadd => exact ih (all_of_add hmerge hw hx hadd) hl
    · exact ih hw hl

end

end Window

/-! ## What workers hold -/

/-- All entries of a flush satisfy a condition. -/
structure Flush.Bears (ok : Key → Pending → Prop) (f : Flush) : Prop where
  left : ∀ x ∈ f.left, ok x.1 x.2
  written : ∀ x ∈ f.written, ok x.1 x.2

/-- All entries in the hands of a worker of a processor satisfy a condition.  Those that are about
to be sent are entries of the next processor. -/
def Activity.Bears (ok : ProcessorId → Key → Pending → Prop) (heard : Event → Prop)
    (id : ProcessorId) : Activity → Prop
  | handling events => ∀ event ∈ events, heard event
  | backingOff _ f _ => f.Bears (ok id)
  | handingOn _ entries => ∀ x ∈ entries, ok id x.1 x.2
  | sending _ _ groups _ => ∀ j, id.coarser? = some j → ∀ g ∈ groups, ∀ x ∈ g.2, ok j x.1 x.2
  | _ => True

/-- A message for a processor. -/
structure Message.Bears (ok : ProcessorId → Key → Pending → Prop) (heard : Event → Prop)
    (id : ProcessorId) (m : Message) : Prop where
  raw : ∀ event ∈ m.raw, heard event
  keyed : ∀ x ∈ m.keyed, ok id x.1 x.2

/-- All entries that a worker of a processor has satisfy a condition. -/
structure Worker.Bears (ok : ProcessorId → Key → Pending → Prop) (heard : Event → Prop)
    (id : ProcessorId) (w : Worker) : Prop where
  mailbox : ∀ m ∈ w.mailbox.queue, m.Bears ok heard id
  window : w.window.All (ok id)
  activity : w.activity.Bears ok heard id

section

variable {ok ok' : ProcessorId → Key → Pending → Prop} {heard : Event → Prop} {id : ProcessorId}
  (himp : ∀ {id k p}, ok id k p → ok' id k p)
include himp

theorem Activity.Bears.imp {activity : Activity} (h : activity.Bears ok heard id) :
    activity.Bears ok' heard id := by
  cases activity with
  | handling events => exact h
  | backingOff trigger f due => exact ⟨fun x hx => himp (h.left x hx),
      fun x hx => himp (h.written x hx)⟩
  | handingOn trigger entries => exact fun x hx => himp (h x hx)
  | sending trigger serial groups count =>
    exact fun j hj g hg x hx => himp (h j hj g hg x hx)
  | _ => trivial

theorem Worker.Bears.imp {w : Worker} (h : w.Bears ok heard id) : w.Bears ok' heard id where
  mailbox m hm := ⟨(h.mailbox m hm).raw, fun x hx => himp ((h.mailbox m hm).keyed x hx)⟩
  window := h.window.imp fun _ _ => himp
  activity := h.activity.imp himp

end

/-- Less may be known of the events. -/
theorem Worker.Bears.imp_heard {ok : ProcessorId → Key → Pending → Prop}
    {heard heard' : Event → Prop} {id : ProcessorId} {w : Worker} (h : w.Bears ok heard id)
    (himp : ∀ event, heard event → heard' event) : w.Bears ok heard' id where
  mailbox m hm :=
    ⟨fun event hevent => himp event ((h.mailbox m hm).raw event hevent), (h.mailbox m hm).keyed⟩
  window := h.window
  activity := by
    have hactivity := h.activity
    generalize w.activity = activity at hactivity ⊢
    cases activity with
    | handling events => exact fun event hevent => himp event (hactivity event hevent)
    | _ => exact hactivity

theorem Worker.Bears.pass {mark : Mark σ} {heard : Event → Prop} {fits : Shared σ → Prop}
    {id : ProcessorId} {s s' : Shared σ} {w : Worker} (h : w.Bears (mark s) heard id)
    (hpasses : mark.Passes fits s s') : w.Bears (mark s') heard id :=
  h.imp hpasses.carries

/-- A worker that starts has nothing. -/
theorem Worker.bears_new (ok : ProcessorId → Key → Pending → Prop) (heard : Event → Prop)
    (id : ProcessorId) (settings : Settings) (now : Nat) :
    (Worker.new settings now).Bears ok heard id where
  mailbox _ hm := nomatch hm
  window := Window.all_of_empty rfl
  activity := trivial

/-! ## At the bench -/

namespace Bench

/-- What is shared fits, and a worker of a processor has marked entries. -/
structure Bears (mark : Mark σ) (heard : Event → Prop) (fits : Shared σ → Prop) (id : ProcessorId)
    (b : Bench σ) : Prop where
  shared : fits b.shared
  worker : b.worker.Bears (mark b.shared) heard id

/-- From one bench to a later one. -/
structure Upholds (mark : Mark σ) (heard : Event → Prop) (fits : Shared σ → Prop) (id : ProcessorId)
    (b b' : Bench σ) : Prop where
  passes : mark.Passes fits b.shared b'.shared
  worker : b'.worker.Bears (mark b'.shared) heard id

variable {mark : Mark σ} {heard : Event → Prop} {fits : Shared σ → Prop} {id : ProcessorId}
  {p : Post}
  {b b' b'' : Bench σ} {trigger : Trigger} {f : Flush}

theorem Upholds.bears (h : Upholds mark heard fits id b b') : b'.Bears mark heard fits id :=
  ⟨h.passes.fits, h.worker⟩

theorem Bears.refl (h : b.Bears mark heard fits id) : Upholds mark heard fits id b b :=
  ⟨.refl h.shared, h.worker⟩

theorem Upholds.trans (h : Upholds mark heard fits id b b')
    (h' : Upholds mark heard fits id b' b'') : Upholds mark heard fits id b b'' :=
  ⟨h.passes.trans h'.passes, h'.worker⟩

/-- Something else is shared, and the worker holds the same. -/
theorem Bears.share (h : b.Bears mark heard fits id) {shared : Shared σ}
    (hpasses : mark.Passes fits b.shared shared) (stats : Stats) :
    Upholds mark heard fits id b { b with shared, stats } :=
  ⟨hpasses, h.worker.pass hpasses⟩

theorem Bears.setWindow (h : b.Bears mark heard fits id) {window : Window Key Pending}
    (hwindow : window.All (mark b.shared id)) :
    Upholds mark heard fits id b { b with worker := { b.worker with window } } :=
  ⟨.refl h.shared, h.worker.mailbox, hwindow, h.worker.activity⟩

variable (hkept : mark.Kept heard fits)
include hkept

theorem reject_bears (hb : b.Bears mark heard fits id) (event : Event) (fault : Fault) :
    Upholds mark heard fits id b (b.reject p event fault) :=
  hb.share (hkept.noted _ _ hb.shared) _

theorem handleEvent_bears (hp : p.id.processor = id) (hb : b.Bears mark heard fits id)
    {event : Event} (hevent : heard event) :
    Upholds mark heard fits id b (b.handleEvent p event) := by
  subst hp
  let b₁ : Bench σ := { b with shared := b.shared.mapped p.id.processor event }
  have h₁ : Upholds mark heard fits p.id.processor b b₁ :=
    hb.share (hkept.mapped _ hb.shared hevent) _
  rw [handleEvent]
  dsimp only
  split
  · exact h₁.trans (reject_bears hkept h₁.bears _ _)
  · next pairs hpairs =>
    let b₂ : Bench σ :=
      { b₁ with shared := { b₁.shared with nextHandle := b.shared.nextHandle + 1 } }
    have h₂ : Upholds mark heard fits p.id.processor b₁ b₂ :=
      h₁.bears.share (hkept.noted _ _ h₁.passes.fits) _
    split
    · next window hadd =>
      refine h₁.trans (h₂.trans (h₂.bears.setWindow ?_))
      refine Window.all_of_addAll (fun _ _ _ _ => hkept.merged) h₂.worker.window
        (fun x hx => ?_) hadd
      obtain ⟨y, hy, rfl⟩ := List.mem_map.1 hx
      exact h₂.passes.carries (hkept.maps hb.shared hevent hpairs y hy _)
    · exact h₁.trans (h₂.trans (reject_bears hkept h₂.bears _ _))

theorem purgeIfDue_bears (hb : b.Bears mark heard fits id) :
    Upholds mark heard fits id b (b.purgeIfDue p) := by
  rw [purgeIfDue]
  split
  · exact hb.refl
  · next horizon _ =>
    have hpurged := hkept.purged p.id.processor.interval
      (b.shared.today - Settings.signedHorizon horizon) hb.shared
    have hworker := hb.worker.pass hpurged
    exact ⟨hpurged, hworker.mailbox, hworker.window, hworker.activity⟩

theorem afterFlush_bears (hb : b.Bears mark heard fits id) (trigger : Trigger) :
    Upholds mark heard fits id b (b.afterFlush p trigger) := by
  have hnext : ∀ activity : Activity, activity.Bears (mark b.shared) heard id →
      Upholds mark heard fits id b { b with worker := { b.worker with activity } } :=
    fun activity hactivity =>
      ⟨.refl hb.shared, hb.worker.mailbox, hb.worker.window, hactivity⟩
  cases trigger with
  | size => exact hnext .waiting trivial
  | stop => exact hnext .ended trivial
  | time =>
    have hwaiting := hnext .waiting trivial
    exact hwaiting.trans (purgeIfDue_bears hkept hwaiting.bears)

theorem conclude_bears (hb : b.Bears mark heard fits id) (hf : f.Bears (mark b.shared id)) :
    Upholds mark heard fits id b (b.conclude p trigger f) := by
  have hnoted := hkept.noted (b.shared.badEvents.addAll (f.rejections p.id.processor.name))
    b.shared.nextHandle hb.shared
  have hworker := hb.worker.pass hnoted
  exact ⟨hnoted, hworker.mailbox, hworker.window, fun x hx => hnoted.carries (hf.written x hx)⟩

/-- A round writes some of the entries of a flush, leaves some and gives some up. -/
theorem round_bears (hb : b.Bears mark heard fits id) (hf : f.Bears (mark b.shared id)) :
    Upholds mark heard fits id b (b.round p trigger f) := by
  have hwritten : Upholds mark heard fits id b
      { b with shared := { b.shared with store := (b.shared.store.mergeBatch f.requests).2 } } :=
    hb.share (hkept.written hb.shared hf.left) _
  rw [round]
  generalize b.shared.store.mergeBatch f.requests = outcome at hwritten
  obtain ⟨results, store⟩ := outcome
  obtain ⟨hpasses, hworker⟩ := hwritten
  cases results with
  | none =>
    exact ⟨hpasses, fun m hm => absurd hm List.not_mem_nil, Window.all_of_empty rfl, trivial⟩
  | some results =>
    have hfates := Flush.perm_fates p.settings.flushRetry f.round (f.answered results)
    rw [Flush.map_fst_answered] at hfates
    have hnext : (f.afterRound p.settings.flushRetry results).Bears (mark b.shared id) := by
      refine ⟨fun x hx => hf.left x (hfates.subset ?_), fun x hx => ?_⟩
      · rw [← Flush.leftOf_judged]
        exact List.mem_append_right _ (List.mem_append_left _ hx)
      · rcases List.mem_append.1 hx with hx | hx
        · exact hf.written x hx
        · rw [Flush.writtenOf_judged] at hx
          exact hf.left x (hfates.subset (List.mem_append_left _ hx))
    have hcarried : (f.afterRound p.settings.flushRetry results).Bears
        (mark { b.shared with store } id) :=
      ⟨fun x hx => hpasses.carries (hnext.left x hx),
        fun x hx => hpasses.carries (hnext.written x hx)⟩
    dsimp only
    split
    · exact Upholds.trans ⟨hpasses, hworker⟩ (conclude_bears hkept ⟨hpasses.fits, hworker⟩ hcarried)
    · exact ⟨hpasses, hworker.mailbox, hworker.window, hcarried⟩

theorem flush_bears (hb : b.Bears mark heard fits id) :
    Upholds mark heard fits id b (b.flush p trigger) := by
  let emptied : Bench σ :=
    { b with worker := { b.worker with window := (b.worker.window.drain b.shared.now).2 } }
  have hemptied : Upholds mark heard fits id b emptied := hb.setWindow (Window.all_of_empty rfl)
  have hbatch : ∀ x ∈ b.shared.arrange b.worker.window.entries.toList, mark b.shared id x.1 x.2 :=
    fun x hx => hb.worker.window x.1 x.2
      (Window.mem_toList ((hkept.arranged hb.shared _).subset hx))
  rw [flush]
  dsimp only [Window.drain]
  split
  · exact hemptied.trans (afterFlush_bears hkept hemptied.bears trigger)
  · exact hemptied.trans (round_bears hkept hemptied.bears ⟨hbatch, List.forall_mem_nil _⟩)

omit hkept in
/-- What is given up in a round was left before it. -/
theorem left_of_givenUp {x : Entry × Fault} (hx : x ∈ (b.roundPage p f).givenUp) :
    x.1 ∈ f.left := by
  rw [roundPage] at hx
  split at hx
  · cases hx
  · next results _ =>
    have hfates := Flush.perm_fates p.settings.flushRetry f.round (f.answered results)
    rw [Flush.map_fst_answered] at hfates
    exact hfates.subset
      (List.mem_append_right _ (List.mem_append_right _ (List.mem_map_of_mem hx)))

theorem givenUp_flushPage (hb : b.Bears mark heard fits id) :
    ∀ x ∈ (b.flushPage p).givenUp, mark b.shared id x.1.1 x.1.2 := by
  intro x hx
  rw [flushPage] at hx
  split at hx
  · cases hx
  · have hleft : x.1 ∈ b.shared.arrange b.worker.window.entries.toList := left_of_givenUp hx
    exact hb.worker.window _ _ (Window.mem_toList ((hkept.arranged hb.shared _).subset hleft))

section

variable {stopping : Bool} {page : Diary} (hp : p.id.processor = id)
include hp

/-- All entries of a worker are marked after a step, and stay so whatever others hold; and so is
what it gives up. -/
theorem Step.bears (h : Step p stopping page b b') (hb : b.Bears mark heard fits id) :
    Upholds mark heard fits id b b' ∧ ∀ x ∈ page.givenUp, mark b'.shared id x.1.1 x.1.2 := by
  cases h with
  | closes =>
    exact ⟨⟨.refl hb.shared, hb.worker.mailbox, hb.worker.window, hb.worker.activity⟩,
      List.forall_mem_nil _⟩
  | @takes _ events rest _ hqueue =>
    have hmailbox := hb.worker.mailbox
    rw [hqueue] at hmailbox
    obtain ⟨hm, hrest⟩ := List.forall_mem_cons.1 hmailbox
    exact ⟨⟨.refl hb.shared, hrest, hb.worker.window, hm.raw⟩, List.forall_mem_nil _⟩
  | @rollups _ entries rest _ hqueue =>
    have hmailbox := hb.worker.mailbox
    rw [hqueue] at hmailbox
    obtain ⟨hm, hrest⟩ := List.forall_mem_cons.1 hmailbox
    exact ⟨⟨.refl hb.shared, hrest,
      Window.all_addEach (fun _ _ _ _ => hkept.merged) hb.worker.window hm.keyed, hm.raw⟩,
      List.forall_mem_nil _⟩
  | @event _ e rest hhandling =>
    have hevents := hb.worker.activity
    rw [hhandling] at hevents
    obtain ⟨he, hrest⟩ := List.forall_mem_cons.1 hevents
    have htaken : Bears mark heard fits id
        { b with worker := { b.worker with activity := .handling rest } } :=
      ⟨hb.shared, hb.worker.mailbox, hb.worker.window, hrest⟩
    obtain ⟨hpasses, hworker⟩ := handleEvent_bears hkept hp htaken he
    exact ⟨⟨hpasses, hworker⟩, List.forall_mem_nil _⟩
  | ends =>
    exact ⟨⟨.refl hb.shared, hb.worker.mailbox, hb.worker.window, trivial⟩, List.forall_mem_nil _⟩
  | flushes trigger =>
    have hflush : Upholds mark heard fits id b (b.flush p trigger) := flush_bears hkept hb
    exact ⟨hflush, fun x hx => hflush.passes.carries (givenUp_flushPage hkept hb x hx)⟩
  | @rounds _ trigger f due hbacking =>
    have hf := hb.worker.activity
    rw [hbacking] at hf
    have hround : Upholds mark heard fits id b (b.round p trigger f) := round_bears hkept hb hf
    exact ⟨hround, fun x hx => hround.passes.carries (hf.left x.1 (left_of_givenUp hx))⟩

/-- So they are after a turn. -/
theorem Steps.bears (h : Steps p stopping page b b') (hb : b.Bears mark heard fits id) :
    Upholds mark heard fits id b b' ∧ ∀ x ∈ page.givenUp, mark b'.shared id x.1.1 x.1.2 := by
  induction h with
  | one step => exact step.bears hkept hp hb
  | cons step _ ih =>
    obtain ⟨hfirst, hgivenUp⟩ := step.bears hkept hp hb
    obtain ⟨hrest, hgivenUp'⟩ := ih hfirst.bears
    exact ⟨hfirst.trans hrest, List.forall_mem_append.2
      ⟨fun x hx => hrest.passes.carries (hgivenUp x hx), hgivenUp'⟩⟩

end

end Bench

/-! ## In an engine -/

namespace Engine

/-- What is shared fits, and all workers have marked entries. -/
structure Bears (mark : Mark σ) (heard : Event → Prop) (fits : Shared σ → Prop) (e : Engine σ) :
    Prop where
  shared : fits e.shared
  forward {id j : ProcessorId} : e.forward? id = some j → id.coarser? = some j
  workers {id : ProcessorId} {c : Crew} : e.crew? id = some c →
    ∀ w ∈ c.workers, w.Bears (mark e.shared) heard id

variable {mark : Mark σ} {heard : Event → Prop} {fits : Shared σ → Prop} {e e' : Engine σ}
  {id : ProcessorId} {p : Processor} {c : Crew} {w : WorkerId} {worker worker' : Worker}
  {shared : Shared σ} {m : Message} {serial i : Nat} {trigger : Trigger}

theorem Bears.of_alike (h : e.Bears mark heard fits) (ha : Alike e e') :
    e'.Bears mark heard fits := by
  refine ⟨ha.shared ▸ h.shared, fun hj => h.forward ?_, fun hc w hw => ?_⟩
  · rwa [forward?, ← ha.processor?]
  · rw [ha.shared]
    exact h.workers (ha.crew? _ ▸ hc) w hw

theorem Bears.at_slot {slot : Slot} (h : e.Bears mark heard fits)
    (hw : e.workerAt? slot = some worker) : worker.Bears (mark e.shared) heard slot.processor := by
  obtain ⟨c, hc, hw⟩ := Option.bind_eq_some_iff.1 hw
  split at hw
  · exact h.workers hc worker (List.mem_of_getElem? hw)
  · cases hw

/-- A worker in a place, and what all workers share. -/
theorem Bears.place (h : e.Bears mark heard fits) (hpasses : mark.Passes fits e.shared shared)
    (hworker : worker'.Bears (mark shared) heard w.processor) (counted : Stats → Stats) :
    (e.place w counted worker' shared).Bears mark heard fits := by
  have hframe : e.Frame (e.place w counted worker' shared) := frame_place
  refine ⟨hpasses.fits, fun hj => h.forward (hframe.forward? _ ▸ hj), fun {id c} hc x hx => ?_⟩
  rw [crew?_place] at hc
  split at hc
  · next heq =>
    subst heq
    obtain ⟨c₀, hc₀, rfl⟩ := Option.map_eq_some_iff.1 hc
    rcases List.mem_or_eq_of_mem_set hx with hx | rfl
    · exact (h.workers hc₀ x hx).imp hpasses.carries
    · exact hworker
  · exact (h.workers hc x hx).imp hpasses.carries

/-- A message gets to a mailbox. -/
theorem Bears.deliver (h : e.Bears mark heard fits) (hm : m.Bears (mark e.shared) heard id)
    (hd : e.deliver id serial i m = .taken e') :
    e'.Bears mark heard fits ∧ e'.shared = e.shared := by
  obtain ⟨c, worker, hc, hw, _, halike⟩ := place_of_deliver hd
  have hworker := h.workers hc worker (List.mem_of_getElem? hw)
  have hreached : { worker with mailbox := worker.mailbox.push m }.Bears (mark e.shared) heard id :=
    ⟨List.forall_mem_append.2 ⟨hworker.mailbox, List.forall_mem_singleton.2 hm⟩, hworker.window,
      hworker.activity⟩
  have hplaced := h.place (w := ⟨id, i⟩) (.refl h.shared) hreached fun s => s
  exact ⟨hplaced.of_alike halike, halike.shared⟩

/-- Another processor whose workers have marked entries is put in a place. -/
theorem Bears.replace (h : e.Bears mark heard fits) {p' : Processor}
    (hr : e.Replaces e' id p p')
    (hworkers : ∀ c, p'.crew = some c → ∀ w ∈ c.workers, w.Bears (mark e.shared) heard id) :
    e'.Bears mark heard fits := by
  refine ⟨hr.shared ▸ h.shared, fun {i j} hj => h.forward ((hr.forward? i).symm.trans hj),
    fun {j c} hc => ?_⟩
  rw [hr.shared]
  by_cases hj : j = id
  · subst hj
    exact hworkers c (hr.crew?_own.symm.trans hc)
  · exact h.workers ((hr.crew?_other hj).symm.trans hc)

theorem bears_start (h : e.Bears mark heard fits) (id : ProcessorId) :
    (e.start id).Bears mark heard fits := by
  obtain heq | ⟨p, _, hr⟩ := start_cases e id
  · rw [heq]
    exact h
  · refine h.replace hr fun c hc w hw => ?_
    cases hc
    rw [List.eq_of_mem_replicate hw]
    exact Worker.bears_new _ heard id p.settings e.shared.now

theorem bears_beginStop (h : e.Bears mark heard fits) (id : ProcessorId) :
    (e.beginStop id).Bears mark heard fits := by
  obtain ⟨halike, _⟩ | ⟨p, hr⟩ := beginStop_cases e id
  · exact h.of_alike halike
  · refine h.replace hr fun c hc => ?_
    rw [beginStop_eq] at hc
    obtain ⟨c₀, hc₀, rfl⟩ := Option.map_eq_some_iff.1 hc
    have hheld := h.workers ((crew?_eq hr.found).trans hc₀)
    exact hheld

theorem bears_endStop (h : e.Bears mark heard fits) (id : ProcessorId) :
    (e.endStop id).2.Bears mark heard fits := by
  obtain heq | ⟨p, hr⟩ := endStop_cases e id
  · rw [heq]
    exact h
  · refine h.replace hr fun c hc => ?_
    rw [endStop_eq] at hc
    cases hc

section

variable (hkept : mark.Kept heard fits) (h : e.Bears mark heard fits)
  (hp : e.processor? w.processor = some p) (hcrew : p.crew = some c)
  (hw : c.workers[w.partition]? = some worker)
include h hp hcrew hw

theorem Bears.bench : Bench.Bears mark heard fits w.processor ⟨e.shared, p.stats, worker⟩ :=
  ⟨h.shared, h.workers ((crew?_eq hp).trans hcrew) worker (List.mem_of_getElem? hw)⟩

omit hp hcrew hw in
theorem bears_atBench (hid : p.id = w.processor) {f : Post → Bench σ → Bench σ} {b : Bench σ}
    (hb : f (p.post w.partition) ⟨e.shared, p.stats, worker⟩ = b)
    (hpasses : mark.Passes fits e.shared b.shared)
    (hworker : b.worker.Bears (mark b.shared) heard w.processor) :
    (e.atBench p w.partition worker f).Bears mark heard fits ∧
      mark.Passes fits e.shared (e.atBench p w.partition worker f).shared := by
  have heq : e.atBench p w.partition worker f =
      e.place w (fun _ => b.stats) b.worker b.shared := by
    rw [atBench, hid]
    subst hb
    rfl
  rw [heq]
  exact ⟨h.place hpasses hworker _, hpasses⟩

include hkept

theorem bears_afterFlush (trigger : Trigger) (f : Stats → Stats) :
    let e' := e.atBench p w.partition worker fun post b =>
      { b with stats := f b.stats }.afterFlush post trigger
    e'.Bears mark heard fits ∧ mark.Passes fits e.shared e'.shared := by
  have hcounted := (h.bench hp hcrew hw).share (.refl h.shared) (f p.stats)
  have hafter := Bench.afterFlush_bears (p := p.post w.partition) hkept hcounted.bears trigger
  exact bears_atBench h (id_of_processor? hp) rfl hafter.passes hafter.worker

theorem bears_handsOn (hands : e.HandsOn p w.partition worker e') :
    e'.Bears mark heard fits ∧ mark.Passes fits e.shared e'.shared := by
  have hworker : worker.Bears (mark e.shared) heard w.processor := (h.bench hp hcrew hw).worker
  have hhanded := hworker.activity
  cases hands with
  | skips count _ _ =>
    exact bears_afterFlush hkept h hp hcrew hw _
      fun s => { s with rollupsForwarded := s.rollupsForwarded + count }
  | groups hactivity hforward _ _ =>
    rw [hactivity] at hhanded
    have hcoarser := h.forward ((forward?_eq hp).trans hforward)
    refine bears_atBench h (id_of_processor? hp) rfl (.refl h.shared)
      ⟨hworker.mailbox, hworker.window, fun j hj g hg x hx => ?_⟩
    obtain rfl := Option.some.inj (hcoarser.symm.trans hj)
    have hmem := (Partitioner.perm_spread _ _).subset (List.mem_flatMap.2 ⟨g, hg, hx⟩)
    obtain ⟨y, hy, rfl⟩ := List.mem_map.1 hmem
    exact hkept.onward hcoarser (hhanded y hy)
  | @sends _ _ _ _ group _ coarser e₁ hactivity hforward hd =>
    rw [hactivity] at hhanded
    have hcoarser := h.forward ((forward?_eq hp).trans hforward)
    obtain ⟨hgroup, -⟩ := List.forall_mem_cons.1 (hhanded coarser hcoarser)
    obtain ⟨h₁, hshared⟩ := h.deliver (m := .rollups group)
      ⟨fun _ hx => absurd hx List.not_mem_nil, hgroup⟩ hd
    rw [← hshared] at hworker ⊢
    refine bears_atBench h₁ (id_of_processor? hp) rfl (.refl h₁.shared)
      ⟨hworker.mailbox, hworker.window, fun j hj g hg => ?_⟩
    rw [hshared]
    exact hhanded j hj g (List.mem_cons_of_mem _ hg)

end

/-- After a turn everything is marked again, and what the worker gave up in it is marked. -/
theorem bears_turn (hkept : mark.Kept heard fits) (h : e.Bears mark heard fits)
    (hturn : e.turn w = some e') :
    e'.Bears mark heard fits ∧ mark.Passes fits e.shared e'.shared ∧
      ∀ x ∈ (e.page w).givenUp, mark e'.shared w.processor x.1.1 x.1.2 := by
  obtain ⟨p, c, worker, hp, hcrew, hw, hturns⟩ := turn_cases hturn
  have hworker := (worker?_eq hcrew).trans hw
  cases hturns with
  | @bench b' hown hb =>
    have hid : (p.post w.partition).id.processor = w.processor := id_of_processor? hp
    have hbench := h.bench hp hcrew hw
    obtain ⟨⟨hpasses, hheld⟩, hgivenUp⟩ := (Bench.turn_steps hb).bears hkept hid hbench
    obtain ⟨hbears, hpasses'⟩ :=
      bears_atBench (f := fun _ _ => b') h (id_of_processor? hp) rfl hpasses hheld
    refine ⟨hbears, hpasses', ?_⟩
    rw [page_of_turn hp hcrew hworker hown]
    exact hgivenUp
  | passing hands =>
    obtain ⟨trigger, hpassing⟩ := hands.passing
    obtain ⟨dropped, hpage⟩ := page_of_passing hp hcrew hworker hpassing
    obtain ⟨hbears, hpasses⟩ := bears_handsOn hkept h hp hcrew hw hands
    refine ⟨hbears, hpasses, fun x hx => ?_⟩
    rw [hpage] at hx
    exact absurd hx List.not_mem_nil

end Engine

/-! ## In a run -/

namespace Plant

variable {mark : Mark σ} {heard : Event → Prop} {fits : Shared σ → Prop} {s : Plant σ}
  {allowed : Shared σ → Shared σ → Prop} {moves : List (Move σ)}

/-- All workers have marked entries, and so had those that they gave up. -/
structure Bears (mark : Mark σ) (heard : Event → Prop) (fits : Shared σ → Prop) (s : Plant σ) :
    Prop where
  engine : s.engine.Bears mark heard fits
  givenUp : ∀ x ∈ s.pages, ∀ y ∈ x.2.givenUp, mark s.engine.shared x.1.processor y.1.1 y.1.2

/-- Whenever others change what workers share in a run, they do it in an allowed way. -/
def Allows (allowed : Shared σ → Shared σ → Prop) (s : Plant σ) (moves : List (Move σ)) : Prop :=
  ∀ before shared after, moves = before ++ Move.share shared :: after →
    allowed (s.run before).engine.shared shared.1

/-- The events that mailboxes took. -/
def accepted (s : Plant σ) : List Event := s.arrivals.flatMap fun a => a.message.raw

theorem run_concat (s : Plant σ) (moves : List (Move σ)) (m : Move σ) :
    s.run (moves ++ [m]) = (s.run moves).step m := List.foldl_append

/-- In a run in which others change nothing, anything is allowed. -/
theorem allows_of_quiet {allowed : Shared σ → Shared σ → Prop} {s : Plant σ} {moves : List (Move σ)}
    (h : ∀ shared, Move.share shared ∉ moves) : Allows allowed s moves := fun _ shared _ heq =>
  absurd (heq ▸ List.mem_append_right _ List.mem_cons_self) (h shared)

/-- What is allowed in a run and then in another is allowed in both. -/
theorem Allows.append {allowed : Shared σ → Shared σ → Prop} {s : Plant σ}
    {moves more : List (Move σ)}
    (h : Allows allowed s moves) (h' : Allows allowed (s.run moves) more) :
    Allows allowed s (moves ++ more) := by
  intro before shared after heq
  obtain ⟨rest, rfl, hrest⟩ | ⟨rest, rfl, hrest⟩ := List.append_eq_append_iff.1 heq
  · rw [show s.run (moves ++ rest) = (s.run moves).run rest from List.foldl_append]
    exact h' rest shared after hrest
  · cases rest with
    | nil =>
      rw [List.append_nil] at h'
      exact h' [] shared after hrest.symm
    | cons m rest =>
      obtain ⟨rfl, -⟩ := List.cons.inj hrest
      exact h before shared rest rfl

/-- A move takes nothing out of the record. -/
theorem arrivals_step (s : Plant σ) (m : Move σ) :
    ∃ more, (s.step m).arrivals = s.arrivals ++ more := by
  have hmoves := moves_step s m
  generalize s.step m = s' at hmoves ⊢
  cases hmoves with
  | delivers found next taken =>
    rw [deliver_eq found next taken]
    exact ⟨_, rfl⟩
  | turns turned found =>
    rw [turn_eq turned found]
    exact ⟨_, rfl⟩
  | _ => exact ⟨[], (List.append_nil _).symm⟩

/-- Mailboxes took at the end of a run what they took before. -/
theorem accepted_run_append (moves more : List (Move σ)) :
    ∀ event ∈ (s.run moves).accepted, event ∈ (s.run (moves ++ more)).accepted := by
  induction more using List.reverseRecOn with
  | nil =>
    rw [List.append_nil]
    exact fun _ => id
  | append_singleton more m ih =>
    intro event hevent
    obtain ⟨last, hlast⟩ := arrivals_step (s.run (moves ++ more)) m
    rw [← List.append_assoc, run_concat, accepted, hlast, List.flatMap_append]
    exact List.mem_append_left _ (ih event hevent)

/-- What holds at the start, and after each move of a run if it did before, holds at the end. -/
theorem run_induction {P : Plant σ → Prop} (hstart : P s)
    (hstep : ∀ before m after, moves = before ++ m :: after → P (s.run before) →
      P (s.run (before ++ [m]))) : P (s.run moves) := by
  have hprefix : ∀ before after, moves = before ++ after → P (s.run before) := by
    intro before
    induction before using List.reverseRecOn with
    | nil => exact fun _ _ => hstart
    | append_singleton before m ih =>
      intro after heq
      have hcons : moves = before ++ m :: after := heq.trans (List.append_cons ..).symm
      exact hstep before m after hcons (ih _ hcons)
  exact hprefix moves [] (List.append_nil _).symm

/-- What changes is the engine, and what is shared passes. -/
theorem Bears.of_engine (h : s.Bears mark heard fits) {s' : Plant σ}
    (hengine : s'.engine.Bears mark heard fits)
    (hpasses : mark.Passes fits s.engine.shared s'.engine.shared) (hpages : s'.pages = s.pages) :
    s'.Bears mark heard fits :=
  ⟨hengine, fun x hx y hy => hpasses.carries (h.givenUp x (hpages ▸ hx) y hy)⟩

theorem Bears.turn (hkept : mark.Kept heard fits) (h : s.Bears mark heard fits) (w : WorkerId) :
    (s.turn w).Bears mark heard fits := by
  rw [Plant.turn]
  split
  · next e slot hturn hslot =>
    obtain ⟨hbears, hpasses, hpage⟩ := Engine.bears_turn hkept h.engine hturn
    obtain ⟨c, _, rfl⟩ := Option.map_eq_some_iff.1 hslot
    refine ⟨hbears, fun x hx y hy => ?_⟩
    rcases List.mem_append.1 hx with hx | hx
    · exact hpasses.carries (h.givenUp x hx y hy)
    · obtain rfl := List.mem_singleton.1 hx
      exact hpage y hy
  · exact h

/-- A call brings events that are heard. -/
theorem Bears.deliver (h : s.Bears mark heard fits) {i partition : Nat} {call : Call}
    {events : List Event} {parts : List (Nat × List Event)} {e : Engine σ}
    (hcall : s.calls[i]? = some call) (hparts : call.parts = (partition, events) :: parts)
    (hd : s.engine.deliver call.id call.serial partition (.events events) = .taken e)
    (hheard : ∀ event ∈ (s.deliver i).accepted, heard event) :
    (s.deliver i).Bears mark heard fits := by
  rw [deliver_eq hcall hparts hd] at hheard ⊢
  have hm : (Message.events events).Bears (mark s.engine.shared) heard call.id := by
    refine ⟨fun event hevent => hheard event ?_, fun _ hx => absurd hx List.not_mem_nil⟩
    exact List.mem_flatMap.2 ⟨_, List.mem_append_right _ List.mem_cons_self, hevent⟩
  obtain ⟨hengine, hshared⟩ := h.engine.deliver hm hd
  refine h.of_engine hengine ?_ rfl
  rw [hshared]
  exact .refl h.engine.shared

/-- Every move keeps marks, when what others do to what is shared passes. -/
theorem Bears.step (hkept : mark.Kept heard fits) (h : s.Bears mark heard fits) (m : Move σ)
    (hheard : ∀ event ∈ (s.step m).accepted, heard event)
    (hshare : ∀ shared, m = .share shared → mark.Passes fits s.engine.shared shared.1) :
    (s.step m).Bears mark heard fits := by
  have hsame : mark.Passes fits s.engine.shared s.engine.shared := .refl h.engine.shared
  have hmoves := moves_step s m
  generalize s.step m = s' at hmoves hheard ⊢
  cases hmoves with
  | stays => exact h
  | submits => exact h.of_engine h.engine hsame rfl
  | delivers found next taken => exact h.deliver found next taken hheard
  | skips => exact h.of_engine h.engine hsame rfl
  | turns => exact h.turn hkept _
  | lines => exact h.of_engine (h.engine.of_alike ⟨rfl, rfl⟩) hsame rfl
  | shares shared =>
    have hpasses := hshare shared rfl
    refine h.of_engine ⟨hpasses.fits, h.engine.forward, fun hc w hw => ?_⟩ hpasses rfl
    exact (h.engine.workers hc w hw).imp hpasses.carries
  | starts =>
    refine h.of_engine (Engine.bears_start h.engine _) ?_ rfl
    exact (s.engine.shared_start _).symm ▸ hsame
  | stops =>
    refine h.of_engine (Engine.bears_beginStop h.engine _) ?_ rfl
    exact (s.engine.shared_beginStop _).symm ▸ hsame
  | finishes =>
    refine h.of_engine (Engine.bears_endStop h.engine _) ?_ rfl
    exact (s.engine.shared_endStop _).symm ▸ hsame

/-- Nobody has anything in a pipeline that nobody has started. -/
theorem bears_of_laid {e : Engine σ} (hlaid : e.Laid) (hfits : fits e.shared) :
    Plant.Bears mark heard fits { engine := e } where
  engine := by
    refine ⟨hfits, fun hj => hlaid.forward _ ▸ hj, fun hc => ?_⟩
    rw [hlaid.fresh.idle] at hc
    cases hc
  givenUp _ hx := absurd hx List.not_mem_nil

/-- A run keeps marks. -/
theorem run_bears (hkept : mark.Kept heard fits) (h : s.Bears mark heard fits)
    (hallowed : ∀ {shared shared'}, allowed shared shared' → fits shared →
      mark.Passes fits shared shared')
    (hallows : s.Allows allowed moves)
    (hheard : ∀ event ∈ (s.run moves).accepted, heard event) :
    (s.run moves).Bears mark heard fits := by
  refine run_induction h fun before m after heq hbefore => ?_
  rw [run_concat]
  refine hbefore.step hkept m (fun event hevent => hheard event ?_) fun shared hm => ?_
  · rw [heq, List.append_cons]
    exact accepted_run_append (before ++ [m]) after event (run_concat s before m ▸ hevent)
  · exact hallowed (hallows before shared after (hm ▸ heq)) hbefore.engine.shared

end Plant

end StatRollup
