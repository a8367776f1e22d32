import StatRollup.Proofs.Engine.Plant

/-!
# The books of one worker, and what a turn changes

`Account` says of one worker that what it got is what its diary says it did together with what it
has in hand: messages in the order in which they came, entries each with one fate.  Turns keep an
account (`Account.keeps`), whatever the worker was in the middle of; a message adds to it
(`Account.push`); and a worker that comes or goes has nothing in hand (`Account.new`,
`Account.gone`).

`Engine.turned_of_turn` says once what a turn of an engine can do: it is a change of the worker
that leaves nothing out (`Worker.Keeps`), perhaps with a group that is now in the mailbox of
another worker, and otherwise processors, states and crews stay (`Engine.Frame`).
-/

namespace StatRollup

variable {σ : Type} [Uid.Store σ]

namespace Worker

variable {forward : Option ProcessorId} {w : Worker} {trigger : Trigger} {activity : Activity}
  {dropped sent : List Entry} {lastPurge : Option Nat}

/-- A worker with nothing to write any more turns to something else.  The entries that it was
handing on are still in hand, or the next processor took them, or they are dropped. -/
theorem keeps_of_activity (htidy : w.Tidy) (htrigger : w.activity.trigger? = some trigger)
    (hunwritten : w.activity.unwritten = []) (hnone : activity.unwritten = [])
    (hpieces : activity.pieces = []) (hlives : activity ≠ .died)
    (hstop : activity.trigger? = some .stop → trigger = .stop)
    (honward : ∀ j, forward = some j → (w.activity.onward j.interval).Perm
      (activity.onward j.interval ++ sent ++ dropped)) :
    Keeps forward w { w with activity, lastPurge } { dropped } sent where
  messages := rfl
  pieces := by
    rw [Activity.pieces_of_isFilling (Activity.isFilling_of_trigger? htrigger), hpieces]
    rfl
  entries := by rw [hunwritten, hnone]; exact .refl _
  onward hj := by simpa using honward _ hj
  survived _ := ⟨rfl, rfl, rfl⟩
  died := by simp [hlives]
  tidy := by
    refine ⟨htidy.closed, fun _ => htidy.busy (Activity.isFilling_of_trigger? htrigger),
      fun h => htidy.stopping ?_, fun h => absurd h hlives⟩
    rw [htrigger, hstop h]

/-- A message in the mailbox of a worker that takes messages. -/
theorem Tidy.push (h : w.Tidy) (hopen : w.mailbox.isOpen = true) (m : Message) :
    ({ w with mailbox := w.mailbox.push m } : Worker).Tidy where
  closed hclosing := h.closed hclosing
  busy := h.busy
  stopping hstop := by
    have hclosed := h.closed (h.stopping hstop).1
    rw [hopen] at hclosed
    cases hclosed
  died hdied := by
    have hclosed := (h.died hdied).1
    rw [hopen] at hclosed
    cases hclosed

end Worker

/-! ## The books of one worker -/

/-- What a worker got is what it did and what it has in hand. -/
structure Account (forward : Option ProcessorId) (arrived : List Message) (sent : List Entry)
    (d : Diary) (w : Option Worker) : Prop where
  messages : arrived = d.taken ++ d.lost ++ (w.map fun w => w.mailbox.queue).getD []
  pieces : d.taken.flatMap Message.pieces =
    d.handled ++ (w.map fun w => w.activity.pieces).getD []
  entries : d.drained.Perm (d.written ++ d.givenUp.map Prod.fst ++ d.unsettled ++
    (w.map fun w => w.activity.unwritten).getD [])
  onward {j : ProcessorId} : forward = some j → (d.written.map (rekey j.interval)).Perm
    ((w.map fun w => w.activity.onward j.interval).getD [] ++ sent ++ d.dropped ++
      d.stranded.map (rekey j.interval))
  survived : d.crashes = 0 → d.lost = [] ∧ d.unsettled = [] ∧ d.stranded = []
  died {worker : Worker} : w = some worker → (worker.activity = .died ↔ d.crashes ≠ 0)
  tidy {worker : Worker} : w = some worker → worker.Tidy

namespace Account

variable {forward : Option ProcessorId} {arrived : List Message} {sent sent' : List Entry}
  {d page : Diary} {w w' : Worker}

/-- Nothing happened yet. -/
theorem empty : Account forward [] [] {} none where
  messages := rfl
  pieces := rfl
  entries := .refl _
  onward _ := .refl _
  survived _ := ⟨rfl, rfl, rfl⟩
  died h := nomatch h
  tidy h := nomatch h

/-- What a worker handled is of a message that came to it. -/
theorem exists_of_mem_handled {w : Option Worker} {piece : Message}
    (h : Account forward arrived sent d w) (hpiece : piece ∈ d.handled) :
    ∃ m ∈ arrived, piece ∈ m.pieces := by
  have htaken : piece ∈ d.taken.flatMap Message.pieces :=
    h.pieces ▸ List.mem_append_left _ hpiece
  obtain ⟨m, hm, hpiece⟩ := List.mem_flatMap.1 htaken
  exact ⟨m, h.messages ▸ List.mem_append_left _ (List.mem_append_left _ hm), hpiece⟩

/-- A worker goes on. -/
theorem keeps (h : Account forward arrived sent d (some w)) (hlives : w.activity ≠ .died)
    (hk : Worker.Keeps forward w w' page sent') :
    Account forward arrived (sent ++ sent') (d.add page) (some w') := by
  have hcrashes : d.crashes = 0 := by
    by_contra hne
    exact hlives ((h.died rfl).2 hne)
  obtain ⟨hlost, hunsettled, hstranded⟩ := h.survived hcrashes
  refine ⟨?_, ?_, ?_, fun hj => ?_, fun hnone => ?_, fun hw => ?_, fun hw => ?_⟩
  · have hmessages := h.messages
    simp only [Option.map_some, Option.getD_some, hlost, hk.messages] at hmessages ⊢
    simp only [Diary.add, hmessages, hlost, List.nil_append, List.append_assoc]
  · have hpieces := h.pieces
    rw [Option.map_some, Option.getD_some] at hpieces ⊢
    simp only [Diary.add, List.flatMap_append]
    rw [hpieces, List.append_assoc, hk.pieces, List.append_assoc]
  · classical
    have hold := List.perm_iff_count.1 h.entries
    have hnew := List.perm_iff_count.1 hk.entries
    refine List.perm_iff_count.2 fun x => ?_
    have hx := hold x
    have hx' := hnew x
    simp only [Diary.add, Option.map_some, Option.getD_some, List.map_append,
      List.count_append] at hx hx' ⊢
    omega
  · classical
    have hold := List.perm_iff_count.1 (h.onward hj)
    have hnew := List.perm_iff_count.1 (hk.onward hj)
    refine List.perm_iff_count.2 fun x => ?_
    have hx := hold x
    have hx' := hnew x
    simp only [Diary.add, Option.map_some, Option.getD_some, List.map_append,
      List.count_append] at hx hx' ⊢
    omega
  · obtain ⟨hlost', hunsettled', hstranded'⟩ := hk.survived (Nat.add_eq_zero_iff.1 hnone).2
    simp [Diary.add, *]
  · cases hw
    simpa [Diary.add, hcrashes] using hk.died
  · cases hw
    exact hk.tidy

/-- A worker gets a message. -/
theorem push (h : Account forward arrived sent d (some w)) (hopen : w.mailbox.isOpen = true)
    (m : Message) : Account forward (arrived ++ [m]) sent d
      (some { w with mailbox := w.mailbox.push m }) where
  messages := by
    rw [h.messages]
    simp [Mailbox.push]
  pieces := h.pieces
  entries := h.entries
  onward := h.onward
  survived := h.survived
  died hw := by
    cases hw
    show w.activity = .died ↔ d.crashes ≠ 0
    exact h.died rfl
  tidy hw := by
    cases hw
    exact (h.tidy rfl).push hopen m

/-- A worker that starts. -/
theorem new (h : Account forward arrived sent d none) (hcrashes : d.crashes = 0)
    (settings : Settings) (now : Nat) :
    Account forward arrived sent d (some (.new settings now)) where
  messages := h.messages
  pieces := h.pieces
  entries := h.entries
  onward := h.onward
  survived := h.survived
  died hw := by
    cases hw
    simp [Worker.new, hcrashes]
  tidy hw := by
    cases hw
    exact Worker.tidy_new settings now

/-- A worker that is over goes. -/
theorem gone (h : Account forward arrived sent d (some w)) (hover : w.isOver = true) :
    Account forward arrived sent d none := by
  obtain ⟨hqueue, hidle, _, hunwritten, honward⟩ := (h.tidy rfl).of_isOver hover
  refine ⟨?_, ?_, ?_, fun hj => ?_, h.survived, fun hw => ?_, fun hw => ?_⟩
  · have hmessages := h.messages
    rw [Option.map_some, Option.getD_some, hqueue] at hmessages
    exact hmessages
  · have hpieces := h.pieces
    rw [Option.map_some, Option.getD_some, hidle] at hpieces
    exact hpieces
  · have hentries := h.entries
    rw [Option.map_some, Option.getD_some, hunwritten] at hentries
    exact hentries
  · have hwritten := h.onward hj
    rw [Option.map_some, Option.getD_some, honward] at hwritten
    exact hwritten
  · cases hw
  · cases hw

end Account

/-- The groups that a worker is handing on are for the partitions of their statistics. -/
def Activity.Grouped (q : Partitioner) : Activity → Prop
  | sending _ _ groups _ => ∀ g ∈ groups, ∀ x ∈ g.2, q.partitionOf x.1.statistic.toBytes = g.1
  | _ => True

/-! ## What a turn of an engine changes -/

namespace Engine

variable {e e' e₁ : Engine σ} {id : ProcessorId} {p : Processor} {c : Crew} {w : WorkerId}
  {worker worker' : Worker} {counted : Stats → Stats} {shared : Shared σ} {slot : Slot}
  {serial i : Nat} {m : Message}

theorem workerAt?_place (hc : e.crew? w.processor = some c)
    (hw : c.workers[w.partition]? = some worker) :
    (e.place w counted worker' shared).workerAt? slot =
      if slot = ⟨w.processor, c.serial, w.partition⟩ then some worker' else e.workerAt? slot := by
  obtain ⟨j, serial, i⟩ := slot
  rw [workerAt?, workerAt?, crew?_place]
  dsimp only
  by_cases hj : j = w.processor
  · subst hj
    rw [if_pos rfl, hc, Option.map_some, Option.bind_some, Option.bind_some]
    by_cases hserial : c.serial = serial
    · subst hserial
      rw [if_pos rfl, if_pos rfl, List.getElem?_set]
      by_cases hi : w.partition = i
      · subst hi
        have hlt := (List.getElem?_eq_some_iff.1 hw).1
        simp [hlt]
      · rw [if_neg hi, if_neg fun heq => hi (congrArg Slot.partition heq).symm]
    · rw [if_neg hserial, if_neg hserial,
        if_neg fun heq => hserial (congrArg Slot.serial heq).symm]
  · rw [if_neg hj, if_neg fun heq => hj (congrArg Slot.processor heq)]

theorem Alike.workerAt? (h : Alike e e') (slot : Slot) : e'.workerAt? slot = e.workerAt? slot := by
  rw [Engine.workerAt?, Engine.workerAt?, h.crew?]

theorem workerAt?_of_crew? (hc : e.crew? id = some c) :
    e.workerAt? ⟨id, c.serial, i⟩ = c.workers[i]? := by
  rw [workerAt?, hc, Option.bind_some, if_pos rfl]

/-- A message that is taken is in the mailbox of the worker in its slot. -/
theorem workerAt?_deliver (hd : e.deliver id serial i m = .taken e') :
    ∃ worker, e.workerAt? ⟨id, serial, i⟩ = some worker ∧ worker.mailbox.isOpen = true ∧
      (∀ slot, e'.workerAt? slot = if slot = ⟨id, serial, i⟩ then
        some { worker with mailbox := worker.mailbox.push m } else e.workerAt? slot) := by
  obtain ⟨c, worker, hc, hw, hopen, halike⟩ := place_of_deliver hd
  have hserial : c.serial = serial := by
    by_contra hne
    rw [deliver, show (e.processor? id).bind Processor.crew = some c from hc] at hd
    simp only [hw] at hd
    rw [if_pos (.inl hne)] at hd
    cases hd
  subst hserial
  refine ⟨worker, (workerAt?_of_crew? hc).trans hw, hopen, fun slot => ?_⟩
  rw [halike.workerAt?, workerAt?_place (w := ⟨id, i⟩) hc hw]

/-! ## What stays the same -/

/-- A processor that is told to stop tells its workers. -/
theorem beginStop_eq (p : Processor) : p.beginStop = { p with
    state := if p.crew.isSome then .stopping else .stopped
    crew := p.crew.map fun c => { c with isStopping := true } } := by
  obtain ⟨_, _, _, _, crew, _⟩ := p
  cases crew <;> rfl

/-- A processor whose run ends has no workers. -/
theorem endStop_eq (p : Processor) : p.endStop.2 = { p with state := .stopped, crew := none } := by
  rw [Processor.endStop]
  split
  · rfl
  · split <;> rfl

/-- Two engines with the same processors, states and crews, whatever their workers do. -/
structure Frame (e e' : Engine σ) : Prop where
  processor (id : ProcessorId) :
    (e'.processor? id).map (fun p => (p.settings, p.forward, p.state)) =
      (e.processor? id).map fun p => (p.settings, p.forward, p.state)
  crew (id : ProcessorId) : (e'.crew? id).map (fun c => (c.serial, c.isStopping)) =
    (e.crew? id).map fun c => (c.serial, c.isStopping)
  ids : e'.processors.map Processor.id = e.processors.map Processor.id
  nextSerial : e'.nextSerial = e.nextSerial

theorem Frame.refl (e : Engine σ) : Frame e e := ⟨fun _ => rfl, fun _ => rfl, rfl, rfl⟩

theorem Frame.trans {e'' : Engine σ} (h : Frame e e') (h' : Frame e' e'') : Frame e e'' :=
  ⟨fun id => (h'.processor id).trans (h.processor id), fun id => (h'.crew id).trans (h.crew id),
    h'.ids.trans h.ids, h'.nextSerial.trans h.nextSerial⟩

theorem frame_of_alike (h : Alike e e') (hserial : e'.nextSerial = e.nextSerial) : Frame e e' := by
  refine ⟨fun id => ?_, fun id => ?_, by rw [h.processors], hserial⟩
  · rw [Engine.processor?, Engine.processor?, h.processors]
  · rw [h.crew?]

theorem nextSerial_wake (e : Engine σ) (w : WorkerId) : (e.wake w).nextSerial = e.nextSerial := by
  rw [wake]
  split <;> rfl

theorem nextSerial_wakeIfWaiting (e : Engine σ) (w : WorkerId) :
    (e.wakeIfWaiting w).nextSerial = e.nextSerial := by
  rw [wakeIfWaiting]
  split
  · split
    · exact nextSerial_wake e w
    · rfl
  · rfl

theorem nextSerial_foldl {f : Engine σ → WorkerId → Engine σ}
    (hf : ∀ e w, (f e w).nextSerial = e.nextSerial) (ws : List WorkerId) (e : Engine σ) :
    (ws.foldl f e).nextSerial = e.nextSerial := by
  induction ws generalizing e with
  | nil => rfl
  | cons w ws ih => exact (ih (f e w)).trans (hf e w)

theorem frame_place : Frame e (e.place w counted worker' shared) := by
  refine ⟨fun id => ?_, fun id => ?_, ids_place, rfl⟩
  · rw [processor?_place]
    split
    · next heq =>
      rw [heq, Option.map_map]
      rfl
    · rfl
  · rw [crew?_place]
    split
    · next heq =>
      rw [heq, Option.map_map]
      rfl
    · rfl

theorem frame_deliver (hd : e.deliver id serial i m = .taken e') : Frame e e' := by
  obtain ⟨c, worker, _, _, _, halike⟩ := place_of_deliver hd
  refine frame_place.trans (frame_of_alike halike ?_)
  rw [deliver] at hd
  split at hd
  · cases hd
  · split at hd
    · cases hd
    · dsimp only at hd
      split at hd
      · cases hd
      · split at hd
        · cases hd
        · cases hd
          exact nextSerial_wakeIfWaiting _ _

/-- An engine in the order that starting and stopping keep: processors are as they were set up,
those with a crew that takes messages run, and the next serial is new. -/
structure Orderly (first e : Engine σ) : Prop where
  partitioner (id : ProcessorId) : e.partitioner? id = first.partitioner? id
  forward (id : ProcessorId) : e.forward? id = first.forward? id
  arranged (entries : List Entry) : (e.shared.arrange entries).Perm entries
  running {id : ProcessorId} {p : Processor} {c : Crew} : e.processor? id = some p →
    p.crew = some c → c.isStopping = false → p.state = .running
  serial {id : ProcessorId} {c : Crew} : e.crew? id = some c → c.serial < e.nextSerial

variable {first : Engine σ}

theorem Frame.partitioner? (h : Frame e e') (id : ProcessorId) :
    e'.partitioner? id = e.partitioner? id := by
  have hprocessor := congrArg (Option.map fun x => Partitioner.mk x.1.partitions) (h.processor id)
  rw [Option.map_map, Option.map_map] at hprocessor
  exact hprocessor

theorem Frame.forward? (h : Frame e e') (id : ProcessorId) : e'.forward? id = e.forward? id := by
  have hprocessor := congrArg (Option.bind · fun x => x.2.1) (h.processor id)
  rw [Option.bind_map, Option.bind_map] at hprocessor
  exact hprocessor

theorem Orderly.frame (h : Orderly first e) (hf : Frame e e')
    (harranged : ∀ entries, (e'.shared.arrange entries).Perm entries) : Orderly first e' where
  partitioner id := (hf.partitioner? id).trans (h.partitioner id)
  forward id := (hf.forward? id).trans (h.forward id)
  arranged := harranged
  running {id p c} hp hc hgo := by
    have hprocessor := hf.processor id
    have hcrew := hf.crew id
    rw [crew?_eq hp, hc] at hcrew
    rw [hp] at hprocessor
    obtain ⟨p', hp', heq⟩ := Option.map_eq_some_iff.1 hprocessor.symm
    rw [crew?_eq hp'] at hcrew
    obtain ⟨c', hc', heq'⟩ := Option.map_eq_some_iff.1 hcrew.symm
    have hstate := h.running hp' hc' ((congrArg Prod.snd heq').trans hgo)
    exact (congrArg (fun x => x.2.2) heq).symm.trans hstate
  serial {id c} hc := by
    have hcrew := hf.crew id
    rw [hc] at hcrew
    obtain ⟨c', hc', heq⟩ := Option.map_eq_some_iff.1 hcrew.symm
    rw [hf.nextSerial, ← show c'.serial = c.serial from congrArg Prod.fst heq]
    exact h.serial hc'

/-! ## Turns -/

/-- What a worker does itself in a turn: its next turn at the bench, or it goes on handing entries
on and does nothing else. -/
inductive OwnTurn (e : Engine σ) (w : WorkerId) (worker worker' : Worker) (shared : Shared σ) :
    Prop where
  /-- At its bench. -/
  | bench {p : Processor} {c : Crew} {b : Bench σ} (found : e.processor? w.processor = some p)
    (turned : (Bench.mk e.shared p.stats worker).turn (p.post w.partition) c.isStopping = some b)
    (page : e.page w =
      (Bench.mk e.shared p.stats worker).turnPage (p.post w.partition) c.isStopping)
    (worker_eq : worker' = b.worker) (shared_eq : shared = b.shared)
  /-- Between two processors. -/
  | passing {activity : Activity} {lastPurge : Option Nat} {dropped : List Entry}
    (blamed : worker.activity.blamed = []) (blamed_next : activity.blamed = [])
    (worker_eq : worker' = { worker with activity, lastPurge }) (page : e.page w = { dropped })
    (badEvents : shared.badEvents = e.shared.badEvents)

/-- What a turn of a worker does: it leaves nothing out, and what it brings to another worker is in
the mailbox there. -/
structure Turned (e : Engine σ) (w : WorkerId) (worker worker' : Worker) (shared : Shared σ)
    (e₁ : Engine σ) : Prop where
  /-- Entries leave windows in the same order. -/
  arrange : shared.arrange = e.shared.arrange
  /-- What is not in hand is in the diary, or with another worker. -/
  keeps : Worker.Keeps (e.forward? w.processor) worker worker' (e.page w)
    ((e.handover? w).toList.flatMap Prod.snd)
  /-- Groups are for the partitions of their statistics. -/
  grouped {j : ProcessorId} {q : Partitioner} : e.forward? w.processor = some j →
    e.partitioner? j = some q → worker.activity.Grouped q → worker'.activity.Grouped q ∧
      ∀ x ∈ e.handover? w, ∀ y ∈ x.2, q.partitionOf y.1.statistic.toBytes = x.1.partition
  /-- Nothing else changes, up to the mailbox that got a group. -/
  brings : match e.handover? w with
    | none => e₁ = e
    | some (slot, group) => e.forward? w.processor = some slot.processor ∧
        e.deliver slot.processor slot.serial slot.partition (.rollups group) = .taken e₁
  /-- The worker does it itself. -/
  own : e.OwnTurn w worker worker' shared

section

variable {trigger : Trigger} (hp : e.processor? w.processor = some p) (hcrew : p.crew = some c)
  (hworker : p.worker? w.partition = some worker)
include hp hcrew hworker

theorem page_eq : e.page w = e.pageOf p c w.partition worker := by
  rw [page, hp]
  simp only [hcrew, hworker]

/-- The page of a worker that is not handing entries on. -/
theorem page_of_turn (hown : ∀ trigger, ¬ worker.activity.Passing trigger) :
    e.page w =
      Bench.turnPage (p.post w.partition) c.isStopping ⟨e.shared, p.stats, worker⟩ := by
  rw [page_eq hp hcrew hworker, pageOf]
  split
  · next hactivity => exact absurd (.of_handingOn hactivity) (hown _)
  · next hactivity => exact absurd (.of_sending hactivity) (hown _)
  · rfl

/-- The page of a worker that is handing entries on says at most which of them are dropped. -/
theorem page_of_passing (hpassing : worker.activity.Passing trigger) :
    ∃ dropped, e.page w = { dropped } := by
  rw [page_eq hp hcrew hworker, pageOf]
  generalize worker.activity = activity at hpassing
  cases hpassing with
  | handingOn entries =>
    dsimp only
    rw [passPage]
    split
    · exact ⟨[], rfl⟩
    · split
      · exact ⟨[], rfl⟩
      · exact ⟨_, rfl⟩
  | sending serial groups count =>
    cases groups with
    | nil => exact ⟨[], rfl⟩
    | cons g rest =>
      dsimp only
      rw [sendPage]
      split
      · exact ⟨[], rfl⟩
      · split
        · exact ⟨_, rfl⟩
        · exact ⟨[], rfl⟩

omit hcrew in
theorem handover?_eq : e.handover? w = e.handoverOf? p worker := by
  rw [handover?, hp]
  simp only [hworker]

omit hcrew hworker in
theorem forward?_eq : e.forward? w.processor = p.forward := by
  rw [forward?, hp, Option.bind_some]

/-- A worker that turns to what follows a flush drops what it has in hand. -/
theorem page_of_over (hpassing : worker.activity.Passing trigger)
    (hover : ∀ j, p.forward = some j → worker.activity.HandedOn ∨ e.Refuses j worker.activity) :
    ∃ dropped, e.page w = { dropped } ∧ e.handover? w = none ∧
      ∀ j, p.forward = some j → worker.activity.onward j.interval = dropped := by
  rw [page_eq hp hcrew hworker, handover?_eq hp hworker, pageOf, handoverOf?]
  generalize worker.activity = activity at hpassing hover
  cases hpassing with
  | handingOn entries =>
    dsimp only
    rw [passPage]
    cases hforward : p.forward with
    | none => exact ⟨[], rfl, rfl, fun _ hj => nomatch hj⟩
    | some j =>
      dsimp only
      split
      · next hopen =>
        rcases hover j hforward with hnone | hclosed
        · cases hnone
          exact ⟨[], rfl, rfl, fun _ _ => rfl⟩
        · rw [show e.openCrew? j = none from hclosed] at hopen
          cases hopen
      · exact ⟨_, rfl, rfl, fun _ hj => by cases hj; rfl⟩
  | sending serial groups count =>
    cases groups with
    | nil => exact ⟨[], rfl, by cases p.forward <;> rfl, fun _ _ => rfl⟩
    | cons g rest =>
      dsimp only
      rw [sendPage]
      cases hforward : p.forward with
      | none => exact ⟨[], rfl, rfl, fun _ hj => nomatch hj⟩
      | some j =>
        obtain ⟨f, hd⟩ := (hover j hforward).resolve_left fun hnone => nomatch hnone
        simp only [hd]
        exact ⟨_, rfl, trivial, fun _ _ => rfl⟩

section

variable (htidy : worker.Tidy)
include htidy

/-- Turning to what follows a flush leaves nothing out. -/
theorem turned_skips (count : Nat) (hpassing : worker.activity.Passing trigger)
    (hover : ∀ j, p.forward = some j → worker.activity.HandedOn ∨ e.Refuses j worker.activity) :
    ∃ worker' counted shared e₁,
      (e.atBench p w.partition worker fun post b =>
        let forwarded := b.stats.rollupsForwarded + count
        { b with stats := { b.stats with rollupsForwarded := forwarded } }.afterFlush post
          trigger) = place e₁ w counted worker' shared ∧
        e.Turned w worker worker' shared e₁ := by
  obtain ⟨dropped, hpage, hhandover, honward⟩ := page_of_over hp hcrew hworker hpassing hover
  let stats : Stats := { p.stats with rollupsForwarded := p.stats.rollupsForwarded + count }
  let after : Bench σ :=
    ({ shared := e.shared, stats, worker } : Bench σ).afterFlush (p.post w.partition) trigger
  obtain ⟨lastPurge, hafter, harrange⟩ : ∃ lastPurge, after.worker =
      { worker with activity := trigger.next, lastPurge } ∧
        after.shared.arrange = e.shared.arrange := Bench.afterFlush_worker _ _ trigger
  have hbad : after.shared.badEvents = e.shared.badEvents :=
    Bench.badEvents_afterFlush _ _ trigger
  refine ⟨after.worker, fun _ => after.stats, after.shared, e, ?_, harrange, ?_, ?_, ?_,
    .passing hpassing.blamed Trigger.blamed_next hafter hpage hbad⟩
  · rw [atBench, id_of_processor? hp]
    rfl
  · rw [hafter, hpage, hhandover, forward?_eq hp]
    refine Worker.keeps_of_activity htidy hpassing.trigger? hpassing.unwritten
      Trigger.unwritten_next Trigger.pieces_next Trigger.next_ne_died Trigger.of_trigger?_next
      fun j hj => ?_
    rw [Trigger.onward_next, honward j hj]
    exact .refl _
  · intro j q _ _ _
    rw [hafter, hhandover]
    refine ⟨?_, fun x hx => absurd hx (Option.not_mem_none x)⟩
    cases trigger <;> trivial
  · rw [hhandover]

/-- Grouping entries for the next processor leaves nothing out. -/
theorem turned_groups {entries : List Entry} {j : ProcessorId} {q : Processor} {c' : Crew}
    (hactivity : worker.activity = .handingOn trigger entries) (hforward : p.forward = some j)
    (hq : e.processor? j = some q) (hopen : q.openCrew? = some c') :
    ∃ worker' counted shared e₁,
      (e.atBench p w.partition worker fun _ b =>
        { b with
          worker := { b.worker with
            activity := .sending trigger c'.serial
              (q.groupRollups (entries.map (rekey j.interval))) entries.length } }) =
          place e₁ w counted worker' shared ∧
        e.Turned w worker worker' shared e₁ := by
  have hpassing : worker.activity.Passing trigger := .of_handingOn hactivity
  have hhandover := handover?_eq hp hworker
  rw [handoverOf?, hactivity, hforward] at hhandover
  have hopen' : (e.openCrew? j).isSome = true := by
    rw [openCrew?, hq, Option.bind_some, hopen]
    rfl
  have hpage : e.page w = { dropped := [] } := by
    rw [page_eq hp hcrew hworker, pageOf, hactivity]
    dsimp only
    rw [passPage, hforward]
    exact if_pos hopen'
  let sending : Activity := .sending trigger c'.serial
    (q.groupRollups (entries.map (rekey j.interval))) entries.length
  refine ⟨{ worker with activity := sending }, fun _ => p.stats, e.shared, e, ?_, rfl, ?_, ?_, ?_,
    .passing hpassing.blamed rfl rfl hpage rfl⟩
  · rw [atBench, id_of_processor? hp]
    rfl
  · rw [hpage, hhandover, forward?_eq hp, hforward]
    refine Worker.keeps_of_activity htidy hpassing.trigger? hpassing.unwritten rfl rfl
      (by simp [sending]) Option.some.inj fun j hj => ?_
    cases hj
    rw [hactivity]
    show (entries.map (rekey j.interval)).Perm (List.flatMap Prod.snd _ ++ [] ++ [])
    rw [List.append_nil, List.append_nil]
    exact (Partitioner.perm_spread _ _).symm
  · intro j' q' hj hq' _
    rw [forward?_eq hp, hforward] at hj
    cases hj
    rw [partitioner?, hq] at hq'
    cases hq'
    rw [hhandover]
    exact ⟨fun g hg => Partitioner.route_of_mem_spread hg,
      fun x hx => absurd hx (Option.not_mem_none x)⟩
  · rw [hhandover]

/-- A group that the next processor takes is not left out. -/
theorem turned_sends {serial count target : Nat} {group : List Entry}
    {rest : List (Nat × List Entry)} {j : ProcessorId} {e₁ : Engine σ}
    (hactivity : worker.activity = .sending trigger serial ((target, group) :: rest) count)
    (hforward : p.forward = some j)
    (hd : e.deliver j serial target (.rollups group) = .taken e₁) :
    ∃ worker' counted shared e₂,
      (e₁.atBench p w.partition worker fun _ b =>
        { b with
          worker := { b.worker with activity := .sending trigger serial rest count } }) =
          place e₂ w counted worker' shared ∧
        e.Turned w worker worker' shared e₂ := by
  have hpassing : worker.activity.Passing trigger := .of_sending hactivity
  have hhandover : e.handover? w = some (⟨j, serial, target⟩, group) := by
    rw [handover?_eq hp hworker, handoverOf?, hactivity, hforward]
    dsimp only
    rw [hd]
  have hpage : e.page w = { dropped := [] } := by
    rw [page_eq hp hcrew hworker, pageOf, hactivity]
    dsimp only
    rw [sendPage, hforward]
    dsimp only
    rw [hd]
  obtain ⟨_, _, _, _, _, halike⟩ := place_of_deliver hd
  have hshared : e₁.shared = e.shared := halike.shared
  refine ⟨{ worker with activity := .sending trigger serial rest count }, fun _ => p.stats,
    e₁.shared, e₁, ?_, by rw [hshared], ?_, ?_, ?_,
    .passing hpassing.blamed rfl rfl hpage (by rw [hshared])⟩
  · rw [atBench, id_of_processor? hp]
    rfl
  · rw [hpage, hhandover, forward?_eq hp, hforward]
    refine Worker.keeps_of_activity htidy hpassing.trigger? hpassing.unwritten rfl rfl
      (by simp) Option.some.inj fun j _ => ?_
    rw [hactivity]
    simpa [Activity.onward] using List.perm_append_comm
  · intro j q _ _ hgrouped
    rw [hactivity] at hgrouped
    obtain ⟨hgroup, hrest⟩ := List.forall_mem_cons.1 hgrouped
    rw [hhandover]
    refine ⟨hrest, fun x hx => ?_⟩
    cases hx
    exact hgroup
  · rw [hhandover]
    exact ⟨(forward?_eq hp).trans hforward, hd⟩

/-- Handing entries on leaves nothing out. -/
theorem turned_handsOn (hands : e.HandsOn p w.partition worker e') :
    ∃ worker' counted shared e₁, e' = place e₁ w counted worker' shared ∧
      e.Turned w worker worker' shared e₁ := by
  cases hands with
  | skips count passing ended => exact turned_skips hp hcrew hworker htidy count passing ended
  | groups passing forward found crew =>
    exact turned_groups hp hcrew hworker htidy passing forward found crew
  | sends passing forward taken => exact turned_sends hp hcrew hworker htidy passing forward taken

end

end

/-- What a turn does. -/
theorem turned_of_turn (harrange : ∀ entries, (e.shared.arrange entries).Perm entries)
    (htidy : ∀ c worker, e.crew? w.processor = some c → c.workers[w.partition]? = some worker →
      worker.Tidy) (hturn : e.turn w = some e') :
    ∃ c worker, e.crew? w.processor = some c ∧ c.workers[w.partition]? = some worker ∧
      worker.activity ≠ .died ∧ ∃ worker' counted shared e₁,
        e' = place e₁ w counted worker' shared ∧ e.Turned w worker worker' shared e₁ := by
  obtain ⟨p, c, worker, hp, hcrew, hw, hturns⟩ := turn_cases hturn
  have hc := (crew?_eq hp).trans hcrew
  have hworker := (worker?_eq hcrew).trans hw
  have htidy := htidy c worker hc hw
  refine ⟨c, worker, hc, hw, ?_⟩
  cases hturns with
  | @bench b' hown hb =>
    obtain ⟨hkeeps, harrange'⟩ := (Bench.turn_steps hb).keeps p.forward htidy harrange
    have hsending := (Bench.turn_steps hb).isSending
    have hgrouped : ∀ q, b'.worker.activity.Grouped q := fun q => by
      rw [isSending] at hsending
      split at hsending
      · cases hsending
      · next hnot =>
        cases hactivity : b'.worker.activity with
        | sending => exact absurd hactivity (hnot _ _ _ _)
        | _ => trivial
    have hpage : e.page w = Bench.turnPage (p.post w.partition) c.isStopping
        ⟨e.shared, p.stats, worker⟩ := page_of_turn hp hcrew hworker hown
    have hhandover : e.handover? w = none := by
      rw [handover?_eq hp hworker, handoverOf?]
      split
      · next hactivity => exact absurd (.of_sending hactivity) (hown _)
      · rfl
    refine ⟨fun hdied => ?_, b'.worker, fun _ => b'.stats, b'.shared, e, ?_, harrange', ?_,
      ?_, ?_, .bench hp hb hpage rfl rfl⟩
    · rw [Bench.turn, hdied] at hb
      cases hb
    · rw [atBench, id_of_processor? hp]
      rfl
    · rw [hpage, hhandover, forward?_eq hp]
      exact hkeeps
    · intro j q _ _ _
      rw [hhandover]
      exact ⟨hgrouped q, fun x hx => absurd hx (Option.not_mem_none x)⟩
    · rw [hhandover]
  | passing hands =>
    obtain ⟨trigger, hpassing⟩ := hands.passing
    exact ⟨hpassing.ne_died, turned_handsOn hp hcrew hworker htidy hands⟩

end Engine

end StatRollup
