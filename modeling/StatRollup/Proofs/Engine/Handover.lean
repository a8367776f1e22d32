import StatRollup.Proofs.Engine.Chain
import StatRollup.Proofs.Engine.Forwarding
import StatRollup.Proofs.Engine.Kinds

/-!
# Handing on along the chain

The next processor of a worker runs (`Chain.Linked.next_runs`), so what the worker hands on can only
be refused by the mailbox that it is for.  `Engine.Relayed` says that there is such a mailbox, in
the crew that the worker took note of, and that it is open unless the worker there died.  It is kept
by every move of a chain (`Chain.relays_step`), because a processor gets a new crew only while no
worker hands on to it.
-/

namespace StatRollup

variable {σ : Type} [Uid.Store σ]

/-! ## Mailboxes stay open -/

namespace Bench

variable {p : Post} {b b' : Bench σ}

/-- A worker that is not told to stop keeps its mailbox as open as it is, unless it dies. -/
theorem isOpen_round (p : Post) (b : Bench σ) (trigger : Trigger) (f : Flush) :
    (b.round p trigger f).worker.activity = .died ∨
      (b.round p trigger f).worker.mailbox.isOpen = b.worker.mailbox.isOpen := by
  rw [round]
  dsimp only
  split
  · exact .inl rfl
  · split <;> exact .inr rfl

theorem isOpen_flush (p : Post) (b : Bench σ) (trigger : Trigger) :
    (b.flush p trigger).worker.activity = .died ∨
      (b.flush p trigger).worker.mailbox.isOpen = b.worker.mailbox.isOpen := by
  rw [flush]
  dsimp only
  split
  · obtain ⟨lastPurge, hworker, _⟩ := afterFlush_worker p { b with
      worker := { b.worker with window := (b.worker.window.drain b.shared.now).2 } } trigger
    rw [hworker]
    exact .inr rfl
  · exact isOpen_round _ _ _ _

theorem Step.isOpen {page : Diary} (h : Step p false page b b') :
    b'.worker.activity = .died ∨ b'.worker.mailbox.isOpen = b.worker.mailbox.isOpen := by
  cases h with
  | closes _ told => cases told
  | takes => exact .inr rfl
  | rollups => exact .inr rfl
  | @event _ e rest =>
    obtain ⟨⟨window, hworker⟩, -⟩ := handleEvent_eq p
      { b with worker := { b.worker with activity := .handling rest } } e
    rw [hworker]
    exact .inr rfl
  | ends => exact .inr rfl
  | flushes trigger => exact isOpen_flush p b trigger
  | rounds => exact isOpen_round p b _ _

theorem Steps.isOpen {page : Diary} (h : Steps p false page b b') :
    b'.worker.activity = .died ∨ b'.worker.mailbox.isOpen = b.worker.mailbox.isOpen := by
  induction h with
  | one step => exact step.isOpen
  | cons step rest ih =>
    exact ih.imp_right fun hrest => hrest.trans (step.isOpen.resolve_left rest.ne_died)

end Bench

/-! ## Workers that hand on to workers -/

namespace Engine

variable {e e' : Engine σ} {id j : ProcessorId} {c : Crew} {w : WorkerId} {worker worker' : Worker}
  {counted : Stats → Stats} {shared : Shared σ} {p : Processor} {m : Message} {serial i : Nat}
  {trigger : Trigger}

/-- There is one worker per partition, its window is of the kind of its processor, and its mailbox
is open unless it is told to stop or died.  Groups that workers hand on are for workers of the next
crew. -/
structure Relayed (e : Engine σ) : Prop where
  size {id : ProcessorId} {q : Partitioner} {c : Crew} : e.partitioner? id = some q →
    e.crew? id = some c → c.workers.length = q.count
  opened {id : ProcessorId} {c : Crew} : e.crew? id = some c → c.isStopping = false →
    ∀ w ∈ c.workers, w.activity ≠ .died → w.mailbox.isOpen = true
  kinds {id : ProcessorId} {c : Crew} : e.crew? id = some c →
    ∀ w ∈ c.workers, w.window.All (OfKind id.kind)
  reaches {id j : ProcessorId} {c c' : Crew} : e.forward? id = some j → e.crew? id = some c →
    e.crew? j = some c' → ∀ w ∈ c.workers, w.activity.Reaches c'

theorem Relayed.of_processors (h : e.Relayed) (heq : e'.processors = e.processors) :
    e'.Relayed := by
  have hsame : ∀ id, e'.processor? id = e.processor? id := fun id => by
    rw [processor?, processor?, heq]
  have hcrew : ∀ id, e'.crew? id = e.crew? id := fun id => by rw [crew?, crew?, hsame]
  have hpartitioner : ∀ id, e'.partitioner? id = e.partitioner? id := fun id => by
    rw [partitioner?, partitioner?, hsame]
  have hnext : ∀ id, e'.forward? id = e.forward? id := fun id => by
    rw [forward?, forward?, hsame]
  refine ⟨fun hq hc => h.size (hpartitioner _ ▸ hq) (hcrew _ ▸ hc),
    fun hc => h.opened (hcrew _ ▸ hc), fun hc => h.kinds (hcrew _ ▸ hc),
    fun hj hc hc' => h.reaches (hnext _ ▸ hj) (hcrew _ ▸ hc) (hcrew _ ▸ hc')⟩

/-- Another worker in a place, as open as the crew asks for, with a window of the kind and groups
for the next crew. -/
theorem Relayed.place (h : e.Relayed) (hc : e.crew? w.processor = some c)
    (hopen : c.isStopping = false → worker'.activity ≠ .died → worker'.mailbox.isOpen = true)
    (hkind : worker'.window.All (OfKind w.processor.kind))
    (hreach : ∀ j c', e.forward? w.processor = some j → e.crew? j = some c' →
      worker'.activity.Reaches c') : (e.place w counted worker' shared).Relayed := by
  have hframe : e.Frame (e.place w counted worker' shared) := frame_place
  -- Every crew is one of before, with at most one other worker.
  have hcrews : ∀ {id c₁}, (e.place w counted worker' shared).crew? id = some c₁ →
      ∃ c₀, e.crew? id = some c₀ ∧ c₁.serial = c₀.serial ∧ c₁.isStopping = c₀.isStopping ∧
        c₁.workers.length = c₀.workers.length ∧
        ∀ x ∈ c₁.workers, x ∈ c₀.workers ∨ id = w.processor ∧ x = worker' := by
    intro id c₁ hc₁
    rw [crew?_place] at hc₁
    split at hc₁
    · next heq =>
      rw [hc] at hc₁
      cases hc₁
      refine ⟨c, heq ▸ hc, rfl, rfl, List.length_set, fun x hx => ?_⟩
      exact (List.mem_or_eq_of_mem_set hx).imp_right fun hx => ⟨heq, hx⟩
    · exact ⟨c₁, hc₁, rfl, rfl, rfl, fun x hx => .inl hx⟩
  refine ⟨fun hq hc₁ => ?_, fun hc₁ hgo x hx hlives => ?_, fun hc₁ x hx => ?_,
    fun {id j c₁ c₂} hj hc₁ hc₂ x hx => ?_⟩
  · obtain ⟨c₀, hc₀, _, _, hlength, _⟩ := hcrews hc₁
    rw [hframe.partitioner?] at hq
    exact hlength.trans (h.size hq hc₀)
  · obtain ⟨c₀, hc₀, _, hstop, _, hmem⟩ := hcrews hc₁
    obtain hx | ⟨rfl, rfl⟩ := hmem x hx
    · exact h.opened hc₀ (hstop ▸ hgo) x hx hlives
    · rw [hc] at hc₀
      cases hc₀
      exact hopen (hstop ▸ hgo) hlives
  · obtain ⟨c₀, hc₀, _, _, _, hmem⟩ := hcrews hc₁
    obtain hx | ⟨rfl, rfl⟩ := hmem x hx
    · exact h.kinds hc₀ x hx
    · exact hkind
  · obtain ⟨c₀, hc₀, _, _, _, hmem⟩ := hcrews hc₁
    obtain ⟨c₀', hc₀', hserial, _, hlength, _⟩ := hcrews hc₂
    rw [hframe.forward?] at hj
    refine Activity.Reaches.congr ?_ hserial hlength
    obtain hx | ⟨rfl, rfl⟩ := hmem x hx
    · exact h.reaches hj hc₀ hc₀' x hx
    · exact hreach j c₀' hj hc₀'

theorem Relayed.deliver (h : e.Relayed) (hd : e.deliver id serial i m = .taken e') :
    e'.Relayed := by
  obtain ⟨c, worker, hc, hw, hopen, halike⟩ := place_of_deliver hd
  have hmem := List.mem_of_getElem? hw
  refine Relayed.of_processors ?_ halike.processors
  exact Relayed.place (w := ⟨id, i⟩) h hc (fun _ _ => hopen) (h.kinds hc worker hmem)
    fun j c' hj hc' => h.reaches hj hc hc' worker hmem

/-- A worker that is not in the middle of handing on has no groups. -/
theorem reaches_next (c : Crew) (trigger : Trigger) : trigger.next.Reaches c := by
  cases trigger <;> trivial

section

variable (h : e.Relayed) (hp : e.processor? w.processor = some p)
include h hp

theorem relayed_atBench (hc : e.crew? w.processor = some c) {f : Post → Bench σ → Bench σ}
    {b : Bench σ}
    (hb : f (p.post w.partition) { shared := e.shared, stats := p.stats, worker } = b)
    (hopen : c.isStopping = false → b.worker.activity ≠ .died → b.worker.mailbox.isOpen = true)
    (hkind : b.worker.window.All (OfKind w.processor.kind))
    (hreach : ∀ j c', e.forward? w.processor = some j → e.crew? j = some c' →
      b.worker.activity.Reaches c') : (e.atBench p w.partition worker f).Relayed := by
  have heq : e.atBench p w.partition worker f =
      e.place w (fun _ => b.stats) b.worker b.shared := by
    rw [atBench, id_of_processor? hp]
    subst hb
    rfl
  rw [heq]
  exact h.place hc hopen hkind hreach

variable (hcrew : p.crew = some c) (hw : c.workers[w.partition]? = some worker)
  (hlives : worker.activity ≠ .died)
include hcrew hw hlives

theorem relayed_afterFlush (trigger : Trigger) (f : Stats → Stats) :
    (e.atBench p w.partition worker fun post b =>
      { b with stats := f b.stats }.afterFlush post trigger).Relayed := by
  have hc := (crew?_eq hp).trans hcrew
  obtain ⟨lastPurge, hafter, _⟩ := Bench.afterFlush_worker (p.post w.partition)
    { shared := e.shared, stats := f p.stats, worker } trigger
  have hmem := List.mem_of_getElem? hw
  refine relayed_atBench h hp hc rfl (fun hgo _ => ?_) ?_ fun j c' _ _ => ?_
  · rw [hafter]
    exact h.opened hc hgo worker hmem hlives
  · rw [hafter]
    exact h.kinds hc worker hmem
  · rw [hafter]
    exact reaches_next c' trigger

theorem relayed_handsOn (hforward : ∀ id, e.forward? id ≠ some id)
    (hands : e.HandsOn p w.partition worker e') : e'.Relayed := by
  have hc := (crew?_eq hp).trans hcrew
  have hmem := List.mem_of_getElem? hw
  cases hands with
  | skips count _ _ =>
    exact relayed_afterFlush h hp hcrew hw hlives _
      fun s => { s with rollupsForwarded := s.rollupsForwarded + count }
  | groups _ hnext hq hopen =>
    have hcrew' := (Option.filter_eq_some_iff.1 hopen).1
    refine relayed_atBench h hp hc rfl (fun hgo _ => h.opened hc hgo worker hmem hlives)
      (h.kinds hc worker hmem) fun j c' hj hc' => ?_
    rw [forward?_eq hp, hnext] at hj
    cases hj
    rw [crew?_eq hq, hcrew'] at hc'
    cases hc'
    refine ⟨rfl, fun g hg => ?_⟩
    rw [h.size (by rw [partitioner?, hq]; rfl) ((crew?_eq hq).trans hcrew')]
    exact Processor.lt_of_mem_groupRollups _ _ hg
  | @sends _ _ _ _ _ _ coarser e₁ hactivity hnext hd =>
    have h₁ := h.deliver hd
    -- The crew of the worker is not the one that got the group.
    have hne : w.processor ≠ coarser := by
      rintro rfl
      exact hforward w.processor ((forward?_eq hp).trans hnext)
    obtain ⟨_, _, _, _, _, halike⟩ := place_of_deliver hd
    have hp₁ : e₁.processor? w.processor = some p := by
      rw [halike.processor?, processor?_place, if_neg hne, hp]
    have hc₁ := (crew?_eq hp₁).trans hcrew
    refine relayed_atBench h₁ hp₁ hc₁ rfl
      (fun hgo _ => h₁.opened hc₁ hgo worker hmem hlives) (h₁.kinds hc₁ worker hmem)
      fun j c' hj hc' => ?_
    have hreach := h₁.reaches hj hc₁ hc' worker hmem
    rw [hactivity] at hreach
    exact ⟨hreach.1, fun g hg => hreach.2 g (List.mem_cons_of_mem _ hg)⟩

end

/-- The messages of a worker bring entries of the kind of its processor. -/
def MailOfKind (e : Engine σ) (w : WorkerId) : Prop :=
  ∀ c worker, e.crew? w.processor = some c → c.workers[w.partition]? = some worker →
    ∀ m ∈ worker.mailbox.queue, m.OfKind w.processor.kind

/-- A turn keeps mailboxes open, windows of one kind and groups for workers.  The entries that leave
the window are of the kind. -/
theorem Relayed.turn (h : e.Relayed) (hforward : ∀ id, e.forward? id ≠ some id)
    (hmail : e.MailOfKind w) (hturn : e.turn w = some e') :
    e'.Relayed ∧ ∀ x ∈ (e.page w).drained, OfKind w.processor.kind x.1 x.2 := by
  obtain ⟨p, c, worker, hp, hcrew, hw, hturns⟩ := turn_cases hturn
  have hworker := (worker?_eq hcrew).trans hw
  have hc := (crew?_eq hp).trans hcrew
  have hmem := List.mem_of_getElem? hw
  cases hturns with
  | @bench b' hown hb =>
    have hlives : worker.activity ≠ .died := by
      intro hdied
      rw [Bench.turn, hdied] at hb
      cases hb
    have hid : (p.post w.partition).id.processor = w.processor := id_of_processor? hp
    obtain ⟨hkind, hdrained⟩ := (Bench.turn_steps hb).keeps_kind (hid ▸ h.kinds hc worker hmem)
      (hid ▸ hmail c worker hc hw)
    refine ⟨relayed_atBench h hp hc rfl (fun hgo hlives' => ?_) (hid ▸ hkind) fun j c' _ _ =>
      Activity.reaches_of_isSending (Bench.turn_steps hb).isSending, ?_⟩
    · rw [hgo] at hb
      rw [((Bench.turn_steps hb).isOpen).resolve_left hlives']
      exact h.opened hc hgo worker hmem hlives
    · rw [page_of_turn hp hcrew hworker hown]
      exact hid ▸ hdrained
  | passing hands =>
    obtain ⟨trigger, hpassing⟩ := hands.passing
    obtain ⟨dropped, hpage⟩ := page_of_passing hp hcrew hworker hpassing
    refine ⟨relayed_handsOn h hp hcrew hw hpassing.ne_died hforward hands, fun x hx => ?_⟩
    rw [hpage] at hx
    exact absurd hx List.not_mem_nil

/-! ## Starting and stopping -/

/-- Another processor is put in a place, whose workers hand on to workers, and to which workers hand
on. -/
theorem Relayed.replace (h : e.Relayed) {p' : Processor} (hr : e.Replaces e' id p p')
    (hself : e.forward? id ≠ some id)
    (hsize : ∀ c, p'.crew = some c → c.workers.length = p.partitioner.count)
    (hopen : ∀ c, p'.crew = some c → c.isStopping = false →
      ∀ w ∈ c.workers, w.activity ≠ .died → w.mailbox.isOpen = true)
    (hkind : ∀ c, p'.crew = some c → ∀ w ∈ c.workers, w.window.All (OfKind id.kind))
    (hreach : ∀ j c c', e.forward? id = some j → p'.crew = some c → e.crew? j = some c' →
      ∀ w ∈ c.workers, w.activity.Reaches c')
    (hreached : ∀ j c c', e.forward? j = some id → e.crew? j = some c → p'.crew = some c' →
      ∀ w ∈ c.workers, w.activity.Reaches c') : e'.Relayed := by
  have hown := hr.crew?_own
  refine ⟨fun {j q c} hq hc => ?_, fun {j c} hc => ?_, fun {j c} hc => ?_,
    fun {i j c c'} hj hc hc' => ?_⟩
  · rw [hr.partitioner?] at hq
    by_cases hj : j = id
    · subst hj
      rw [partitioner?, hr.found] at hq
      cases hq
      exact hsize c (hown ▸ hc)
    · exact h.size hq (hr.crew?_other hj ▸ hc)
  · by_cases hj : j = id
    · subst hj
      exact hopen c (hown ▸ hc)
    · exact h.opened (hr.crew?_other hj ▸ hc)
  · by_cases hj : j = id
    · subst hj
      exact hkind c (hown ▸ hc)
    · exact h.kinds (hr.crew?_other hj ▸ hc)
  · rw [hr.forward?] at hj
    by_cases hi : i = id
    · subst hi
      have hne : j ≠ i := fun heq => hself (heq ▸ hj)
      exact hreach j c c' hj (hown ▸ hc) (hr.crew?_other hne ▸ hc')
    · rw [hr.crew?_other hi] at hc
      by_cases hj' : j = id
      · subst hj'
        exact hreached i c c' hj hc (hown ▸ hc')
      · exact h.reaches hj hc (hr.crew?_other hj' ▸ hc')

section

variable (h : e.Relayed) (hforward : ∀ id, e.forward? id ≠ some id)
  (hp : e.processor? id = some p)
include h hforward hp

/-- A processor starts while no workers hand on to it. -/
theorem relayed_start (hstate : p.state ≠ .running)
    (hnone : ∀ j, e.forward? j = some id → e.crew? j = none) : (e.start id).Relayed := by
  refine h.replace (replaces_start hp hstate) (hforward id)
    (fun c hc => ?_) (fun c hc _ w hw _ => ?_) (fun c hc w hw => ?_)
    (fun j c c' _ hc _ w hw => ?_) fun j c c' hj hc => ?_
  · cases hc
    exact List.length_replicate
  · cases hc
    rw [List.eq_of_mem_replicate hw]
    rfl
  · cases hc
    rw [List.eq_of_mem_replicate hw]
    exact Window.all_of_empty rfl
  · cases hc
    rw [List.eq_of_mem_replicate hw]
    trivial
  · rw [hnone j hj] at hc
    cases hc

theorem relayed_beginStop : (e.beginStop id).Relayed := by
  have hcrew : ∀ {c}, p.beginStop.crew = some c → ∃ c₀, e.crew? id = some c₀ ∧
      c = { c₀ with isStopping := true } := by
    intro c hc
    rw [beginStop_eq] at hc
    obtain ⟨c₀, hc₀, rfl⟩ := Option.map_eq_some_iff.1 hc
    exact ⟨c₀, (crew?_eq hp).trans hc₀, rfl⟩
  refine h.replace (replaces_beginStop hp) (hforward id)
    (fun c hc => ?_) (fun c hc hgo => ?_) (fun c hc w hw => ?_)
    (fun j c c' hj hc hc' w hw => ?_) fun j c c' hj hc hc' w hw => ?_
  · obtain ⟨c₀, hc₀, rfl⟩ := hcrew hc
    have hsize : c₀.workers.length = p.partitioner.count :=
      h.size (by rw [partitioner?, hp]; rfl) hc₀
    exact hsize
  · obtain ⟨c₀, _, rfl⟩ := hcrew hc
    cases hgo
  · obtain ⟨c₀, hc₀, rfl⟩ := hcrew hc
    exact h.kinds hc₀ w hw
  · obtain ⟨c₀, hc₀, rfl⟩ := hcrew hc
    exact h.reaches hj hc₀ hc' w hw
  · obtain ⟨c₀, hc₀, rfl⟩ := hcrew hc'
    exact (h.reaches hj hc hc₀ w hw).congr rfl rfl

theorem relayed_endStop : (e.endStop id).2.Relayed := by
  have hcrew : p.endStop.2.crew = none := by rw [endStop_eq]
  refine h.replace (replaces_endStop hp) (hforward id)
    (fun c hc => ?_) (fun c hc => ?_) (fun c hc => ?_)
    (fun j c c' hj hc => ?_) fun j c c' hj _ hc => ?_
  all_goals
    rw [hcrew] at hc
    cases hc

end

end Engine

end StatRollup
