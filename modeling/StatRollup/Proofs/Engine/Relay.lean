import StatRollup.Engine.Pipeline
import StatRollup.Proofs.Engine.Floor
import StatRollup.Proofs.Engine.Passage

/-!
# From worker to worker

An engine is sound when its workers fit their processors and what a worker hands on finds a crew
that takes it: a processor with a crew has a next processor with a crew that is not stopping, unless
it is the coarsest (`Staffed.relay`).

A turn then keeps all counts (`turn_leads`).  A worker by itself was dealt with at its bench.  What
it hands on leaves it group by group, and each group is in the mailbox that took it.
-/

namespace StatRollup

open Uid (Tables)

/-- Groups that a worker hands on are for workers of a crew. -/
def Activity.Reaches (c : Crew) : Activity → Prop
  | sending _ serial groups _ => serial = c.serial ∧ ∀ g ∈ groups, g.1 < c.workers.length
  | _ => True

theorem Activity.Reaches.congr {c c' : Crew} {a : Activity} (h : a.Reaches c)
    (hserial : c'.serial = c.serial) (hsize : c'.workers.length = c.workers.length) :
    a.Reaches c' := by
  cases a with
  | sending trigger serial groups count =>
    exact ⟨h.1.trans hserial.symm, fun g hg => hsize ▸ h.2 g hg⟩
  | _ => trivial

theorem Activity.reaches_of_isSending {c : Crew} {w : Worker} (h : Engine.isSending w = false) :
    w.activity.Reaches c := by
  cases hactivity : w.activity with
  | sending =>
    rw [Engine.isSending, hactivity] at h
    cases h
  | _ => trivial

theorem Activity.Passing.load_of_handedOn {tables : Tables} {trigger : Trigger} {a : Activity}
    (h : a.Passing trigger) (hover : a.HandedOn) (t : Target) : a.load tables t = 0 := by
  cases h with
  | handingOn entries =>
    cases hover
    rfl
  | sending serial groups count =>
    cases hover
    rfl

/-- A processor of the pipeline: it hands on to the next coarser one, and it runs while its crew
takes messages. -/
structure Processor.Posted (settings : Settings) (p : Processor) : Prop where
  settings_eq : p.settings = settings
  forward_eq : p.forward = p.id.coarser?
  healthy : p.isHealthy = p.openCrew?.isSome

theorem Processor.Posted.setWorker {settings : Settings} {p : Processor} (h : p.Posted settings)
    (stats : Stats) (i : Nat) (w : Worker) :
    (({ p with stats } : Processor).setWorker i w).Posted settings := by
  refine ⟨h.settings_eq, h.forward_eq, Eq.trans h.healthy ?_⟩
  rw [openCrew?, openCrew?, Processor.setWorker]
  cases p.crew with
  | none => rfl
  | some c => cases hstop : c.isStopping <;> simp [Option.filter, hstop]

namespace Engine

variable {settings : Settings} {names : List String} {e e' e'' : Engine} {id j : ProcessorId}
  {c c' : Crew} {worker worker' : Worker} {w : WorkerId} {t : Target} {shared : Shared}
  {counted : Stats → Stats}

/-- The workers of a processor, and what they hand on to. -/
structure Staffed (settings : Settings) (names : List String) (e : Engine) (id : ProcessorId)
    (c : Crew) : Prop where
  /-- They fit the processor. -/
  fits : ∀ w ∈ c.workers, w.Fits e.shared.registry e.shared.tables names id
  /-- There is one per partition. -/
  size : c.workers.length = (Partitioner.mk settings.partitions).count
  /-- They take messages until they are told to stop. -/
  opened : c.isStopping = false → ∀ w ∈ c.workers, w.isClosing = false
  /-- What they hand on finds a crew that takes it. -/
  relay {j : ProcessorId} : id.coarser? = some j →
    ∃ c', e.crew? j = some c' ∧ c'.isStopping = false ∧ ∀ w ∈ c.workers, w.activity.Reaches c'

/-- An engine that loses nothing.  All processors are set up for the pipeline, nothing that is
shared will fail, and workers hand on to workers. -/
structure Sound (settings : Settings) (names : List String) (e : Engine) : Prop where
  ids : e.processors.map Processor.id = ProcessorId.all
  posted {id : ProcessorId} {p : Processor} : e.processor? id = some p → p.Posted settings
  shared : e.shared.Sound names
  staffed {id : ProcessorId} {c : Crew} : e.crew? id = some c → e.Staffed settings names id c

/-- What the cells and all workers hold for a target. -/
def amount (e : Engine) (t : Target) : Nat :=
  t.held e.shared.tables e.shared.store.cells + e.total (Worker.load e.shared.tables t)

/-- From one engine to another one by work alone, with a gain for every target. -/
structure Leads (settings : Settings) (names : List String) (e e' : Engine) (gain : Target → Nat) :
    Prop where
  sound : e'.Sound settings names
  registry : e'.shared.registry = e.shared.registry
  told (id : ProcessorId) : e'.told? id = e.told? id
  tallies (t : Target) : t.Registered e.shared.registry →
    Tallies (e'.amount t) (e.amount t + gain t)

/-- From one engine to another one with other workers of one processor, with an exact gain. -/
structure Changes (settings : Settings) (names : List String) (id : ProcessorId) (e e' : Engine)
    (gain : Target → Nat) : Prop where
  sound : e'.Sound settings names
  shared : e'.shared = e.shared
  others {j : ProcessorId} : j ≠ id → e'.crew? j = e.crew? j
  amount (t : Target) : e'.amount t = e.amount t + gain t

theorem Sound.nodup (h : e.Sound settings names) : (e.processors.map Processor.id).Nodup :=
  h.ids ▸ ids_nodup

/-! ## Who is in line -/

theorem Alike.amount (ha : Alike e e') (t : Target) : e'.amount t = e.amount t := by
  rw [Engine.amount, Engine.amount, ha.shared, ha.total]

theorem Sound.congr (h : e.Sound settings names) (ha : Alike e e') : e'.Sound settings names where
  ids := ha.processors ▸ h.ids
  posted hp := h.posted (by rwa [processor?, ha.processors] at hp)
  shared := ha.shared ▸ h.shared
  staffed hc := by
    have hs := h.staffed (ha.crew? _ ▸ hc)
    refine ⟨ha.shared ▸ hs.fits, hs.size, hs.opened, fun hj => ?_⟩
    obtain ⟨c', hc', hrest⟩ := hs.relay hj
    exact ⟨c', (ha.crew? _).trans hc', hrest⟩

/-! ## Another worker in a place -/

section

variable (h : e.Sound settings names) (hc : e.crew? w.processor = some c)
  (hw : c.workers[w.partition]? = some worker)
include h hc hw

/-- What a place contributes, and what everything else does. -/
theorem amount_place (t : Target) :
    ∃ rest, e.amount t =
        rest + (t.held e.shared.tables e.shared.store.cells + worker.load e.shared.tables t) ∧
      ∀ counted worker' shared, shared.dictionary.Sound → e.shared.tables.Extends shared.tables →
        (e.place w counted worker' shared).amount t =
          rest + (t.held shared.tables shared.store.cells + worker'.load shared.tables t) := by
  obtain ⟨rest, hold, _⟩ := total_place h.nodup hc hw (Worker.load e.shared.tables t)
  refine ⟨rest, by rw [amount, hold]; omega, fun counted worker' shared hd hext => ?_⟩
  obtain ⟨rest', hold', hnew⟩ := total_place h.nodup hc hw (Worker.load shared.tables t)
  have htotal : e.total (Worker.load shared.tables t) = e.total (Worker.load e.shared.tables t) :=
    total_congr h.nodup fun id c hc w hw =>
      Worker.load_of_extends hd hext ((h.staffed hc).fits w hw)
  have hsame : worker.load shared.tables t = worker.load e.shared.tables t :=
    Worker.load_of_extends hd hext ((h.staffed hc).fits worker (List.mem_of_getElem? hw))
  rw [amount, shared_place, hnew]
  omega

/-- A sound engine stays sound with another worker in a place. -/
theorem Sound.place (hregistry : shared.registry = e.shared.registry)
    (hshared : shared.Sound names) (hgrows : e.shared.tables.Extends shared.tables)
    (hfits : worker'.Fits shared.registry shared.tables names w.processor)
    (hopen : worker.isClosing = false → c.isStopping = false → worker'.isClosing = false)
    (hreach : ∀ j c', w.processor.coarser? = some j → e.crew? j = some c' →
      worker'.activity.Reaches c') :
    (e.place w counted worker' shared).Sound settings names where
  ids := ids_place.trans h.ids
  posted hp := by
    rw [processor?_place] at hp
    split at hp
    · obtain ⟨p, hp', rfl⟩ := Option.map_eq_some_iff.1 hp
      exact (h.posted hp').setWorker _ _ _
    · exact h.posted hp
  shared := hshared
  staffed {id c₁} hcrew := by
    -- The crew that is handed on to may be the one with the new worker: it is still the same crew.
    have hnext : ∀ j c', e.crew? j = some c' → ∃ c'',
        (e.place w counted worker' shared).crew? j = some c'' ∧ c''.isStopping = c'.isStopping ∧
          ∀ a : Activity, a.Reaches c' → a.Reaches c'' := by
      intro j c' hc'
      rw [crew?_place]
      split
      · next heq =>
        subst heq
        rw [hc] at hc'
        cases hc'
        rw [hc]
        exact ⟨_, rfl, rfl, fun a ha => ha.congr rfl List.length_set⟩
      · exact ⟨c', hc', rfl, fun _ ha => ha⟩
    rw [crew?_place] at hcrew
    split at hcrew
    · next heq =>
      subst heq
      rw [hc] at hcrew
      cases hcrew
      have hs := h.staffed hc
      refine ⟨fun x hx => ?_, List.length_set.trans hs.size, fun hgo x hx => ?_, fun {j} hj => ?_⟩
      · rcases List.mem_or_eq_of_mem_set hx with hmem | rfl
        · rw [shared_place, hregistry]
          exact (hs.fits x hmem).mono hgrows
        · exact hfits
      · rcases List.mem_or_eq_of_mem_set hx with hmem | rfl
        · exact hs.opened hgo x hmem
        · exact hopen (hs.opened hgo worker (List.mem_of_getElem? hw)) hgo
      · obtain ⟨c', hc', hgo, hall⟩ := hs.relay hj
        obtain ⟨c'', hc'', hstop, hmono⟩ := hnext j c' hc'
        refine ⟨c'', hc'', hstop.trans hgo, fun x hx => hmono _ ?_⟩
        rcases List.mem_or_eq_of_mem_set hx with hmem | rfl
        · exact hall x hmem
        · exact hreach j c' hj hc'
    · have hs := h.staffed hcrew
      refine ⟨fun x hx => ?_, hs.size, hs.opened, fun {j} hj => ?_⟩
      · rw [shared_place, hregistry]
        exact (hs.fits x hx).mono hgrows
      · obtain ⟨c', hc', hgo, hall⟩ := hs.relay hj
        obtain ⟨c'', hc'', hstop, hmono⟩ := hnext j c' hc'
        exact ⟨c'', hc'', hstop.trans hgo, fun x hx => hmono _ (hall x hx)⟩

end

/-! ## Messages -/

variable {m : Message} {serial i : Nat}

/-- A message that is taken is all that changes. -/
theorem deliver_changes (h : e.Sound settings names)
    (hm : m.Fits e.shared.registry e.shared.tables names id)
    (hd : e.deliver id serial i m = .taken e') :
    Changes settings names id e e' fun t => m.load e.shared.tables t := by
  obtain ⟨c, worker, hc, hw, hopen, halike⟩ := place_of_deliver hd
  have hfits := (h.staffed hc).fits worker (List.mem_of_getElem? hw)
  have hgoing : worker.isClosing = false := by
    have hclosing := hfits.closing
    rw [hopen] at hclosing
    simpa using hclosing.symm
  have hfits' : Worker.Fits e.shared.registry e.shared.tables names id
      { worker with mailbox := worker.mailbox.push m } := by
    refine ⟨fun x hx => ?_, hfits.window, hfits.activity, hfits.closing, fun hfin => ?_⟩
    · rcases List.mem_append.1 hx with hx | hx
      · exact hfits.messages x hx
      · exact List.mem_singleton.1 hx ▸ hm
    · rw [(hfits.finished hfin).1] at hgoing
      cases hgoing
  refine ⟨?_, halike.shared, fun hne => ?_, fun t => ?_⟩
  · refine Sound.congr (Sound.place (w := ⟨id, i⟩) h hc hw rfl h.shared (.refl _) hfits'
      (fun _ _ => hgoing) fun j c' hj hc' => ?_) halike
    obtain ⟨c'', hc'', _, hall⟩ := (h.staffed hc).relay hj
    rw [hc'] at hc''
    cases hc''
    exact hall worker (List.mem_of_getElem? hw)
  · rw [halike.crew?, crew?_place, if_neg hne]
  · obtain ⟨rest, hold, hnew⟩ := amount_place (w := ⟨id, i⟩) h hc hw t
    rw [halike.amount, hnew _ _ _ h.shared.dictionary (.refl _), hold, Worker.load_push]
    omega

/-- A crew that is not told to stop refuses no message. -/
theorem deliver_ne_refused (h : e.Sound settings names) (hc : e.crew? id = some c)
    (hgo : c.isStopping = false) (hi : i < c.workers.length) (f : Fault) :
    e.deliver id c.serial i m ≠ .refused f := by
  have hw : c.workers[i]? = some c.workers[i] := List.getElem?_eq_getElem hi
  have hmem := List.getElem_mem hi
  have hopen : c.workers[i].mailbox.isOpen = true := by
    rw [((h.staffed hc).fits _ hmem).closing, (h.staffed hc).opened hgo _ hmem]
    rfl
  intro hd
  rw [deliver, show (e.processor? id).bind Processor.crew = some c from hc] at hd
  simp only [hw, hopen] at hd
  rw [if_neg (by simp)] at hd
  split at hd <;> cases hd

/-! ## Turns -/

theorem coarser?_ne (h : id.coarser? = some j) : id ≠ j := by
  obtain ⟨i, hi, rfl⟩ := Option.map_eq_some_iff.1 h
  intro heq
  have hrank := Interval.coarser?_rank hi
  rw [show id.interval = i from congrArg ProcessorId.interval heq] at hrank
  omega

/-- A step at the bench of a worker. -/
theorem place_leads (h : e.Sound settings names) (hc : e.crew? w.processor = some c)
    (hw : c.workers[w.partition]? = some worker) {stats : Stats} {b' : Bench}
    {gain : Target → Nat}
    (hlead : Bench.Leads names w.processor ⟨e.shared, stats, worker⟩ b' gain)
    (hopen : c.isStopping = false → b'.worker.isClosing = worker.isClosing)
    (hreach : ∀ j c', w.processor.coarser? = some j → e.crew? j = some c' →
      b'.worker.activity.Reaches c') :
    e.Leads settings names (e.place w counted b'.worker b'.shared) gain where
  sound := Sound.place h hc hw hlead.registry hlead.shared hlead.grows hlead.worker
    (fun hclosing hgo => (hopen hgo).trans hclosing) hreach
  registry := hlead.registry
  told := told?_place hc
  tallies t ht := by
    obtain ⟨rest, hold, hnew⟩ := amount_place h hc hw t
    rw [hnew _ _ _ hlead.shared.dictionary hlead.grows, hold]
    exact ((hlead.tallies t ht).add_left rest).trans (.of_eq (Nat.add_assoc _ _ _).symm)

/-- A worker turns to something else that contributes as much. -/
theorem turnTo_leads (h : e.Sound settings names) (hc : e.crew? w.processor = some c)
    (hw : c.workers[w.partition]? = some worker) {a : Activity}
    (ha : a.Fits e.shared.registry e.shared.tables names w.processor)
    (hfin : a.finishes = true → worker.activity.finishes = true)
    (hload : ∀ t : Target,
      a.load e.shared.tables t = worker.activity.load e.shared.tables t)
    (hreach : ∀ j c', w.processor.coarser? = some j → e.crew? j = some c' → a.Reaches c') :
    e.Leads settings names (e.place w counted { worker with activity := a } e.shared)
      fun _ => 0 := by
  have hfits := (h.staffed hc).fits worker (List.mem_of_getElem? hw)
  have hlead : Bench.Leads names w.processor ⟨e.shared, {}, worker⟩
      ⟨e.shared, {}, { worker with activity := a }⟩ fun _ => 0 := by
    refine ⟨rfl, h.shared, .refl _, ?_, fun t _ => .of_eq ?_⟩
    · exact ⟨hfits.messages, hfits.window, ha, hfits.closing, fun hf => hfits.finished (hfin hf)⟩
    · rw [Bench.amount, Bench.amount, Worker.load, Worker.load, hload]
      rfl
  exact place_leads h hc hw hlead (fun _ => rfl) hreach

section

variable {registry : Registry} {tables : Tables} {entries : List Entry} {q : Processor}

/-- Entries under their keys at the next interval, grouped for its processor. -/
def regrouped (q : Processor) (coarser : ProcessorId) (entries : List Entry) :
    List (Nat × List Entry) :=
  q.groupRollups (entries.map fun x => (x.1.withInterval coarser.interval, x.2))

variable (hj : id.coarser? = some j)
  (hfits : ∀ x ∈ entries, EntryFits registry tables id x.1 x.2)
include hj hfits

theorem fits_regrouped {g : Nat × List Entry} (hg : g ∈ regrouped q j entries) :
    g.1 < q.partitioner.count ∧ ∀ x ∈ g.2, EntryFits registry tables j x.1 x.2 := by
  refine ⟨Processor.lt_of_mem_groupRollups _ _ hg, fun x hx => ?_⟩
  obtain ⟨y, hy, rfl⟩ := List.mem_map.1 ((Partitioner.mem_spread hg).2 x hx)
  obtain ⟨i, _, rfl⟩ := Option.map_eq_some_iff.1 hj
  have hentry := hfits y hy
  exact ⟨rfl, hentry.kind, hentry.belongs.withInterval i⟩

/-- What entries contribute once they are written is what they contribute at the next interval. -/
theorem sum_regrouped (t : Target) :
    ((regrouped q j entries).map fun g => t.ofEntries tables g.2).sum =
      (entries.map (t.ofWritten tables)).sum := by
  obtain ⟨i, hi, rfl⟩ := Option.map_eq_some_iff.1 hj
  rw [regrouped, Processor.groupRollups_eq]
  refine (Partitioner.sum_spread _ _ (t.ofEntry tables)).trans ?_
  rw [List.map_map]
  refine congrArg List.sum (List.map_congr_left fun x hx => ?_)
  exact Target.ofEntry_withInterval ((hfits x hx).interval ▸ hi)

end

section

variable {p : Processor} {trigger : Trigger} {entries : List Entry} {count : Nat}
  {groups : List (Nat × List Entry)} (h : e.Sound settings names)
  (hkeep : ∀ i, settings.retention i = none) (hp : e.processor? id = some p)
  (hcrew : p.crew = some c) (hw : c.workers[i]? = some worker)
include h hkeep hp hcrew hw

/-- A worker that has nothing to hand on turns to what follows the flush. -/
theorem afterFlush_leads (f : Stats → Stats)
    (hfin : trigger.next.finishes = true → worker.activity.finishes = true)
    (hload : ∀ t : Target, worker.activity.load e.shared.tables t = 0) :
    e.Leads settings names
      (e.atBench p i worker fun post b => { b with stats := f b.stats }.afterFlush post trigger)
      fun _ => 0 := by
  obtain rfl := id_of_processor? hp
  have hc := (crew?_eq hp).trans hcrew
  have hkeep' : (p.post i).settings.retention (p.post i).id.processor.interval = none := by
    rw [Processor.post, (h.posted hp).settings_eq, hkeep]
  simp only [atBench, Bench.afterFlush_eq hkeep']
  show e.Leads settings names (e.place ⟨p.id, i⟩ (fun _ => f p.stats)
    { worker with activity := trigger.next } e.shared) _
  refine turnTo_leads (w := ⟨p.id, i⟩) h hc hw ?_ hfin (fun t => ?_) fun j c' _ _ => ?_
  · cases trigger <;> trivial
  · rw [hload]
    cases trigger <;> rfl
  · cases trigger <;> trivial

omit hkeep in
/-- The next processor takes what a worker of a sound engine hands on. -/
theorem not_refuses (hj : id.coarser? = some j) : ¬ e.Refuses j worker.activity := by
  have hc := (crew?_eq hp).trans hcrew
  obtain ⟨c', hc', hgo, hreach⟩ := (h.staffed hc).relay hj
  have hworker := hreach worker (List.mem_of_getElem? hw)
  intro hrefuses
  cases hactivity : worker.activity with
  | handingOn trigger entries =>
    rw [hactivity] at hrefuses
    obtain ⟨q, hq, hopen⟩ := openCrew?_of_crew? hc' hgo
    rw [Refuses, openCrew?, hq, Option.bind_some, hopen] at hrefuses
    cases hrefuses
  | sending trigger serial groups count =>
    rw [hactivity] at hrefuses hworker
    obtain ⟨rfl, hlt⟩ := hworker
    cases groups with
    | nil => exact hrefuses
    | cons g rest =>
      obtain ⟨f, hd⟩ := hrefuses
      exact deliver_ne_refused h hc' hgo (hlt g List.mem_cons_self) f hd
  | _ =>
    rw [hactivity] at hrefuses
    exact hrefuses

omit hkeep in
/-- What a worker of a sound engine does not hand on contributes to no cell. -/
theorem load_of_over (hpassing : worker.activity.Passing trigger)
    (hover : ∀ j, p.forward = some j → worker.activity.HandedOn ∨ e.Refuses j worker.activity)
    (t : Target) :
    worker.activity.load e.shared.tables t = 0 := by
  obtain rfl := id_of_processor? hp
  have hc := (crew?_eq hp).trans hcrew
  have hfits := ((h.staffed hc).fits worker (List.mem_of_getElem? hw)).activity
  cases hj : p.id.coarser? with
  | none =>
    -- What the coarsest processor wrote contributes to no other cell.
    generalize worker.activity = activity at hpassing hfits
    cases hpassing with
    | handingOn entries =>
      refine List.sum_eq_zero fun n hn => ?_
      obtain ⟨x, hx, rfl⟩ := List.mem_map.1 hn
      refine Target.ofWritten_of_coarsest ?_
      rw [(hfits x hx).interval]
      exact Option.map_eq_none_iff.1 hj
    | sending serial groups count =>
      obtain ⟨j, hj', _⟩ := hfits
      exact absurd (hj.symm.trans hj') (by simp)
  | some j =>
    have hdone := (hover j ((h.posted hp).forward_eq.trans hj)).resolve_right
      (not_refuses h hp hcrew hw hj)
    exact hpassing.load_of_handedOn hdone t

omit h hkeep in
/-- A group that was taken leaves the worker that sent it. -/
theorem sent_leads {target : Nat} {group : List Entry} {rest : List (Nat × List Entry)}
    (hactivity : worker.activity = .sending trigger serial ((target, group) :: rest) count)
    (hj : id.coarser? = some j)
    (hd : Changes settings names j e e' fun t => t.ofEntries e.shared.tables group)
    (htold : ∀ k, e'.told? k = e.told? k) :
    e.Leads settings names
      (e'.place ⟨id, i⟩ counted { worker with activity := .sending trigger serial rest count }
        e'.shared) fun _ => 0 := by
  obtain rfl := id_of_processor? hp
  have hc := (crew?_eq hp).trans hcrew
  have hc' : e'.crew? p.id = some c := (hd.others (coarser?_ne hj)).trans hc
  have hmem := List.mem_of_getElem? hw
  have hfits := (hd.sound.staffed hc').fits worker hmem
  have hactivity' := hfits.activity
  rw [hactivity] at hactivity'
  obtain ⟨coarser, hcoarser, hall⟩ := hactivity'
  refine ⟨Sound.place (w := ⟨p.id, i⟩) hd.sound hc' hw rfl hd.sound.shared (.refl _)
    ⟨hfits.messages, hfits.window,
      ⟨coarser, hcoarser, fun g hg => hall g (List.mem_cons_of_mem _ hg)⟩,
      hfits.closing, fun hfin => hfits.finished ?_⟩ (fun hclosing _ => hclosing)
    fun j' c₁ hj' hc₁ => ?_, congrArg Shared.registry hd.shared,
    fun id => (told?_place (w := ⟨p.id, i⟩) hc' id).trans (htold id), fun t _ => .of_eq ?_⟩
  · rw [hactivity]
    simpa using hfin
  · obtain ⟨c₂, hc₂, _, hreach⟩ := (hd.sound.staffed hc').relay hj'
    rw [hc₁] at hc₂
    cases hc₂
    have hworker := hreach worker hmem
    rw [hactivity] at hworker
    exact ⟨hworker.1, fun g hg => hworker.2 g (List.mem_cons_of_mem _ hg)⟩
  · obtain ⟨others, hold, hnew⟩ := amount_place (w := ⟨p.id, i⟩) hd.sound hc' hw t
    have hload : worker.load e'.shared.tables t = Worker.load e'.shared.tables t
        { worker with activity := .sending trigger serial rest count } +
          t.ofEntries e'.shared.tables group := by
      rw [Worker.load, Worker.load, hactivity, Activity.load, List.map_cons, List.sum_cons,
        Nat.add_comm (t.ofEntries _ _), ← Nat.add_assoc]
      rfl
    have hgain := hd.amount t
    rw [← hd.shared] at hgain
    rw [hnew _ _ _ hd.sound.shared.dictionary (.refl _)]
    omega

/-- Handing entries on keeps all counts. -/
theorem handsOn_leads (hands : e.HandsOn p i worker e') :
    e.Leads settings names e' fun _ => 0 := by
  obtain rfl := id_of_processor? hp
  have hc := (crew?_eq hp).trans hcrew
  have hfits := ((h.staffed hc).fits worker (List.mem_of_getElem? hw)).activity
  have hposted := (h.posted hp).forward_eq
  cases hands with
  | skips count hpassing hover =>
    refine afterFlush_leads h hkeep hp hcrew hw
      (fun s => { s with rollupsForwarded := s.rollupsForwarded + count }) (fun hfin => ?_)
      (load_of_over h hp hcrew hw hpassing hover)
    generalize worker.activity = activity at hpassing
    cases hpassing <;> simpa using hfin
  | @groups trigger entries j q c' hactivity hforward hq hopen =>
    have hj : p.id.coarser? = some j := hposted.symm.trans hforward
    rw [hactivity] at hfits
    let sending : Activity := .sending trigger c'.serial (regrouped q j entries) entries.length
    show e.Leads settings names (e.place ⟨p.id, i⟩ (fun _ => p.stats)
      { worker with activity := sending } e.shared) _
    refine turnTo_leads (w := ⟨p.id, i⟩) h hc hw
      ⟨j, hj, fun g hg => (fits_regrouped hj hfits hg).2⟩ (fun hfin => ?_) (fun t => ?_)
      fun j' c'' hj' hc'' => ?_
    · rw [hactivity]
      simpa [sending] using hfin
    · rw [hactivity]
      exact sum_regrouped hj hfits t
    · cases hj.symm.trans hj'
      have hc' : e.crew? j = some c' := (crew?_eq hq).trans (Option.filter_eq_some_iff.1 hopen).1
      cases hc'.symm.trans hc''
      refine ⟨rfl, fun g hg => ?_⟩
      rw [(h.staffed hc').size, ← (h.posted hq).settings_eq]
      exact (fits_regrouped hj hfits hg).1
  | @sends trigger serial count target group rest j e₁ hactivity hforward hd =>
    have hj : p.id.coarser? = some j := hposted.symm.trans hforward
    rw [hactivity] at hfits
    obtain ⟨j', hj', hall⟩ := hfits
    cases hj.symm.trans hj'
    show e.Leads settings names (e₁.place ⟨p.id, i⟩ (fun _ => p.stats)
      { worker with activity := .sending trigger serial rest count } e₁.shared) _
    exact sent_leads hp hcrew hw hactivity hj
      (deliver_changes (m := .rollups group) h (hall _ List.mem_cons_self) hd) (told?_deliver hd)

end

/-- A turn keeps all counts. -/
theorem turn_leads (h : e.Sound settings names) (hkeep : ∀ i, settings.retention i = none)
    (hturn : e.turn w = some e') : e.Leads settings names e' fun _ => 0 := by
  obtain ⟨p, c, worker, hp, hcrew, hw, hturns⟩ := turn_cases hturn
  cases hturns with
  | @bench b' _ hb =>
    have hc := (crew?_eq hp).trans hcrew
    have hid := id_of_processor? hp
    obtain ⟨hlead, hsend, hclosing⟩ := Bench.turn_leads hid
      (by rw [Processor.post, (h.posted hp).settings_eq, hkeep]) h.shared
      ((h.staffed hc).fits worker (List.mem_of_getElem? hw)) hb
    obtain ⟨id, i⟩ := w
    obtain rfl : p.id = id := hid
    show e.Leads settings names (e.place ⟨p.id, i⟩ (fun _ => b'.stats) b'.worker b'.shared) _
    exact place_leads h hc hw hlead hclosing fun j c' _ _ =>
      Activity.reaches_of_isSending hsend
  | passing hands => exact handsOn_leads h hkeep hp hcrew hw hands

end Engine

end StatRollup
