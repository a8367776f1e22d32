import StatRollup.Proofs.Engine.Accounts

/-!
# Windows whose time is over

A worker that waits looks at its mailbox before it looks at the clock, and in the middle of a
message it looks at neither.  So when the time of its window is over, which happens while a flush is
being retried, the window is not flushed before the messages that wait in the mailbox are handled,
and messages that come meanwhile are handled as well.  Only a full window or an empty mailbox brings
on the flush.

`Engine.Overdue.turn` says what the next turn of such a worker is, and `Plant.Sound.overdue_step`
what any move makes of it: the worker stays overdue, or the move is its own turn and flushes.
-/

namespace StatRollup

variable {σ : Type} [Uid.Store σ]

/-! ## Windows that are not emptied -/

namespace Window

section

variable {κ α : Type} [Ord κ] {w w' w'' : Window κ α}

/-- A window that was not emptied, and holds as many entries as before or more. -/
structure Grows (w w' : Window κ α) : Prop where
  minBatch : w'.minBatch = w.minBatch
  deadline : w'.deadline = w.deadline
  size : w.size ≤ w'.size

theorem Grows.refl (w : Window κ α) : Grows w w := ⟨rfl, rfl, Nat.le_refl _⟩

theorem Grows.trans (h : Grows w w') (h' : Grows w' w'') : Grows w w'' :=
  ⟨h'.minBatch.trans h.minBatch, h'.deadline.trans h.deadline, Nat.le_trans h.size h'.size⟩

end

variable {κ α : Type} [Ord κ] [Std.TransOrd κ] {w w' : Window κ α} {k : κ} {a : α}
  {merge : α → α → Except Fault α} {l : List (κ × α)}

theorem grows_put (w : Window κ α) (k : κ) (a : α) : Grows w (w.put k a) :=
  ⟨rfl, rfl, Std.TreeMap.size_le_size_insert⟩

theorem grows_add (h : w.add merge k a = .ok w') : Grows w w' := by
  rcases add_eq_ok.1 h with ⟨_, rfl⟩ | ⟨_, b, _, _, rfl⟩
  · exact grows_put w k a
  · exact grows_put w k b

theorem grows_addAll (h : w.addAll merge l = .ok w') : Grows w w' := by
  induction l generalizing w with
  | nil =>
    cases h
    exact .refl _
  | cons x l ih =>
    obtain ⟨w₁, hadd, hrest⟩ := bind_eq_ok.1 h
    exact (grows_add hadd).trans (ih hrest)

theorem grows_addEach (w : Window κ α) (l : List (κ × α)) : Grows w (w.addEach merge l) := by
  induction l generalizing w with
  | nil => exact .refl w
  | cons x l ih =>
    rw [addEach]
    split
    · next w₁ hadd => exact (grows_add hadd).trans (ih w₁)
    · exact ih w

end Window

/-- What a worker is in the middle of when these events are left of a message. -/
def Activity.goingOn : List Event → Activity
  | [] => .waiting
  | events => .handling events

theorem Activity.isFilling_goingOn (events : List Event) :
    (Activity.goingOn events).isFilling = true := by
  cases events <;> rfl

theorem Worker.isWaiting_iff {w : Worker} : w.isWaiting = true ↔ w.activity = .waiting := by
  rw [isWaiting]
  split <;> simp_all

namespace Bench

variable {p : Post} {b : Bench σ} {m : Message} {rest : List Message}

/-- An event adds to the window or leaves it, and takes no time. -/
theorem grows_handleEvent (p : Post) (b : Bench σ) (e : Event) :
    b.worker.window.Grows (b.handleEvent p e).worker.window ∧
      (b.handleEvent p e).shared.now = b.shared.now := by
  rw [handleEvent]
  dsimp only
  split
  · exact ⟨.refl _, rfl⟩
  · split
    · next hadd => exact ⟨Window.grows_addAll hadd, rfl⟩
    · exact ⟨.refl _, rfl⟩

/-! ## What a flush says in the diary -/

theorem roundPage_reads (p : Post) (b : Bench σ) (f : Flush) :
    (b.roundPage p f).taken = [] ∧ (b.roundPage p f).handled = [] ∧
      (b.roundPage p f).drained = [] := by
  rw [roundPage]
  split <;> exact ⟨rfl, rfl, rfl⟩

/-- A flush handles no message, and everything leaves the window. -/
theorem flushPage_reads (p : Post) (b : Bench σ) :
    (b.flushPage p).taken = [] ∧ (b.flushPage p).handled = [] ∧
      (b.flushPage p).drained = b.worker.window.entries.toList := by
  rw [flushPage]
  split
  · exact ⟨rfl, rfl, rfl⟩
  · simp [Diary.add, roundPage_reads]

/-! ## What filling the window says in the diary -/

/-- A worker whose window has grown and that is in the middle of something else, or a flush of a
window that was full by then. -/
def Fills (page : Diary) (b b' : Bench σ) (activity : Activity) : Prop :=
  (page.drained = [] ∧ b'.shared.now = b.shared.now ∧ ∃ window, b.worker.window.Grows window ∧
    b'.worker = { b.worker with window, activity }) ∨
  (b.worker.window.minBatch ≤ page.drained.length ∧ b.worker.window.size ≤ page.drained.length)

/-- The end of a message brings on a flush when the window is full. -/
theorem finishMessage_reads (p : Post) (b : Bench σ) :
    (b.finishPage p).taken = [] ∧ (b.finishPage p).handled = [] ∧
      Fills (b.finishPage p) b (b.finishMessage p) .waiting := by
  rw [finishPage, finishMessage]
  dsimp only
  split
  · next hfull =>
    obtain ⟨htaken, hhandled, hdrained⟩ :=
      flushPage_reads p { b with worker := { b.worker with activity := .waiting } }
    refine ⟨htaken, hhandled, .inr ?_⟩
    rw [hdrained, Std.TreeMap.length_toList]
    exact ⟨of_decide_eq_true hfull.2, Nat.le_refl _⟩
  · exact ⟨rfl, rfl, .inl ⟨rfl, rfl, b.worker.window, .refl _, rfl⟩⟩

/-- The window of the worker grows before it is filled further. -/
theorem Fills.of_grows {page : Diary} {b₁ b' : Bench σ} {activity activity₁ : Activity}
    {window : Window Key Pending} (h : Fills page b₁ b' activity)
    (hgrows : b.worker.window.Grows window) (hnow : b₁.shared.now = b.shared.now)
    (hworker : b₁.worker = { b.worker with window, activity := activity₁ }) :
    Fills page b b' activity := by
  rw [Fills, hworker] at h
  obtain ⟨hdrained, hnow', window', hgrows', hworker'⟩ | ⟨hfull, hsize⟩ := h
  · exact .inl ⟨hdrained, hnow'.trans hnow, window', hgrows.trans hgrows', hworker'⟩
  · exact .inr ⟨hgrows.minBatch ▸ hfull, Nat.le_trans hgrows.size hsize⟩

/-- A worker handles the first event that is left of a message. -/
theorem handleNext_reads (p : Post) (b : Bench σ) (events : List Event) :
    (b.nextPage p events).taken = [] ∧
      (b.nextPage p events).handled = (Message.events events).pieces.take 1 ∧
      Fills (b.nextPage p events) b (b.handleNext p events) (.goingOn events.tail) := by
  cases events with
  | nil => exact finishMessage_reads p b
  | cons e rest =>
    let b₁ : Bench σ := { b with worker := { b.worker with activity := .handling rest } }
    obtain ⟨⟨window, hworker⟩, -⟩ := handleEvent_eq p b₁ e
    obtain ⟨hgrows, hnow⟩ := grows_handleEvent p b₁ e
    rw [hworker] at hgrows
    rw [handleNext, nextPage]
    cases rest with
    | nil =>
      obtain ⟨htaken, hhandled, hfills⟩ := finishMessage_reads p (b₁.handleEvent p e)
      exact ⟨htaken, congrArg ([Message.events [e]] ++ ·) hhandled,
        hfills.of_grows (b := b) hgrows hnow hworker⟩
    | cons e' rest => exact ⟨rfl, rfl, .inl ⟨rfl, hnow, window, hgrows, hworker⟩⟩

/-- A worker that takes a message handles the first piece of it. -/
theorem receive_reads (p : Post) (b : Bench σ) (m : Message) (rest : List Message) :
    (b.receivePage p m rest).taken = [m] ∧
      (b.receivePage p m rest).handled = m.pieces.take 1 ∧
      Fills (b.receivePage p m rest)
        { b with worker := { b.worker with mailbox := { b.worker.mailbox with queue := rest } } }
        (b.receive p m rest) (.goingOn m.raw.tail) := by
  cases m with
  | events events =>
    obtain ⟨htaken, hhandled, hfills⟩ := handleNext_reads p (b.takeUp (.events events) rest) events
    exact ⟨congrArg ([Message.events events] ++ ·) htaken, hhandled,
      hfills.of_grows (.refl _) rfl rfl⟩
  | rollups entries =>
    obtain ⟨htaken, hhandled, hfills⟩ :=
      finishMessage_reads p ((b.takeUp (.rollups entries) rest).handleRollups p entries)
    exact ⟨congrArg ([Message.rollups entries] ++ ·) htaken,
      congrArg ([Message.rollups entries] ++ ·) hhandled,
      hfills.of_grows (Window.grows_addEach _ entries) rfl rfl⟩

/-! ## The next turn -/

/-- A worker that waits and is not told to stop handles its oldest message, whatever the time. -/
theorem turn_of_queue (hwaiting : b.worker.activity = .waiting)
    (hqueue : b.worker.mailbox.queue = m :: rest) :
    b.turn p false = some (b.receive p m rest) ∧ b.turnPage p false = b.receivePage p m rest := by
  rw [turn, turnPage, hwaiting]
  simp only [waitingTurn, hqueue, Bool.false_and, Bool.false_eq_true, if_false, and_self]

/-- Without messages it flushes its window when the time is over. -/
theorem turn_of_late (hwaiting : b.worker.activity = .waiting)
    (hopened : b.worker.isClosing = false) (hqueue : b.worker.mailbox.queue = [])
    (hholds : 0 < b.worker.window.size) (hlate : b.worker.window.deadline ≤ b.shared.now) :
    b.turn p false = some (b.flush p .time) ∧ b.turnPage p false = b.flushPage p := by
  have hdue : b.worker.isDue b.shared.now (b.horizonIfDue? p).isSome = true := by
    simp [Worker.isDue, hholds, hlate]
  rw [turn, turnPage, hwaiting]
  simp only [waitingTurn, hqueue, hopened, hdue, Bool.false_and, Bool.false_eq_true, if_false,
    if_true, and_self]

end Bench

namespace Engine

variable {e e' : Engine σ} {slot : Slot} {worker : Worker}

/-- A worker whose time is over: it is filling its window and is not told to stop, and the window
holds something although the deadline has come. -/
structure Overdue (e : Engine σ) (slot : Slot) (worker : Worker) : Prop where
  found : e.workerAt? slot = some worker
  wanted : (e.crew? slot.processor).any Crew.isStopping = false
  filling : worker.activity.isFilling = true
  opened : worker.isClosing = false
  holds : 0 < worker.window.size
  late : worker.window.deadline ≤ e.shared.now

/-- Messages and entries may come to it, and it may go on with messages. -/
theorem Overdue.grows (h : e.Overdue slot worker) {mailbox : Mailbox Message}
    {window : Window Key Pending} {activity : Activity} (hgrows : worker.window.Grows window)
    (hfilling : activity.isFilling = true)
    (hfound : e'.workerAt? slot = some { worker with mailbox, window, activity })
    (hwanted : (e'.crew? slot.processor).any Crew.isStopping = false)
    (hlate : worker.window.deadline ≤ e'.shared.now) :
    e'.Overdue slot { worker with mailbox, window, activity } where
  found := hfound
  wanted := hwanted
  filling := hfilling
  opened := h.opened
  holds := Nat.lt_of_lt_of_le h.holds hgrows.size
  late := hgrows.deadline ▸ hlate

/-- An overdue worker takes its next turn at its bench. -/
theorem Overdue.bench (h : e.Overdue slot worker) : e.slot? slot.worker = some slot ∧
    ∃ (c : Crew) (post : Post) (stats : Stats), e.crew? slot.processor = some c ∧
      c.workers[slot.partition]? = some worker ∧ c.serial = slot.serial ∧ c.isStopping = false ∧
      e.page slot.worker = (Bench.mk e.shared stats worker).turnPage post false ∧
      ∀ b', (Bench.mk e.shared stats worker).turn post false = some b' → e.turn slot.worker =
        some (e.place slot.worker (fun _ => b'.stats) b'.worker b'.shared) := by
  obtain ⟨c, hc, hw⟩ := Option.bind_eq_some_iff.1 h.found
  obtain ⟨p, hp, hcrew⟩ := Option.bind_eq_some_iff.1 hc
  have hserial : c.serial = slot.serial := by
    by_contra hne
    rw [if_neg hne] at hw
    cases hw
  rw [if_pos hserial] at hw
  have hgo : c.isStopping = false := by simpa [hc] using h.wanted
  have hslot : e.slot? slot.worker = some slot := by
    rw [slot?, show e.crew? slot.worker.processor = some c from hc, Option.map_some, hserial]
    rfl
  have hworker : p.worker? slot.worker.partition = some worker := (worker?_eq hcrew).trans hw
  have hown : ∀ trigger, ¬ worker.activity.Passing trigger := fun trigger hpassing => by
    have hfilling := h.filling
    rw [Activity.isFilling_of_trigger? hpassing.trigger?] at hfilling
    cases hfilling
  refine ⟨hslot, c, p.post slot.worker.partition, p.stats, hc, hw, hserial, hgo, ?_, ?_⟩
  · rw [page_of_turn hp hcrew hworker hown, hgo]
  · intro b' hb
    rw [Engine.turn, show e.processor? slot.worker.processor = some p from hp]
    simp only [hcrew, hworker, hgo]
    split
    · next hpassing => exact absurd (.of_handingOn hpassing) (hown _)
    · next hpassing => exact absurd (.of_sending hpassing) (hown _)
    · rw [hb, Option.map_some, atBench, id_of_processor? hp]
      rfl

/-- An overdue worker is still overdue with a window that has grown, or its window was full and is
flushed. -/
def Continues (e e' : Engine σ) (slot : Slot) (worker : Worker) (mailbox : Mailbox Message)
    (activity : Activity) : Prop :=
  ((e.page slot.worker).drained = [] ∧ ∃ window, worker.window.Grows window ∧
    e'.Overdue slot { worker with mailbox, window, activity }) ∨
  (worker.window.minBatch ≤ (e.page slot.worker).drained.length ∧
    worker.window.size ≤ (e.page slot.worker).drained.length)

/-- What the next turn of an overdue worker does. -/
structure TurnsLate (e e' : Engine σ) (slot : Slot) (worker : Worker) : Prop where
  /-- Without messages it flushes the window. -/
  flushes : worker.activity = .waiting → worker.mailbox.queue = [] →
    (e.page slot.worker).taken = [] ∧ (e.page slot.worker).handled = [] ∧
      (e.page slot.worker).drained = worker.window.entries.toList
  /-- Otherwise it takes the oldest message and handles the first piece of it, and then it is still
  overdue unless the window is full and is flushed. -/
  takes {m : Message} {rest : List Message} : worker.activity = .waiting →
    worker.mailbox.queue = m :: rest →
    (e.page slot.worker).taken = [m] ∧ (e.page slot.worker).handled = m.pieces.take 1 ∧
      Continues e e' slot worker { worker.mailbox with queue := rest } (.goingOn m.raw.tail)
  /-- So it goes on with the message. -/
  goesOn {events : List Event} : worker.activity = .handling events →
    (e.page slot.worker).taken = [] ∧
      (e.page slot.worker).handled = (Message.events events).pieces.take 1 ∧
      Continues e e' slot worker worker.mailbox (.goingOn events.tail)

/-- An overdue worker that fills its window at its bench continues in the engine. -/
theorem Overdue.continues (h : e.Overdue slot worker) {c : Crew}
    (hc : e.crew? slot.processor = some c) (hw : c.workers[slot.partition]? = some worker)
    (hserial : c.serial = slot.serial) (hgo : c.isStopping = false) {b b' : Bench σ}
    {page : Diary} {mailbox : Mailbox Message} {activity : Activity}
    (hfills : Bench.Fills page b b' activity) (hpage : e.page slot.worker = page)
    (hshared : b.shared = e.shared) (hworker : b.worker = { worker with mailbox })
    (hfilling : activity.isFilling = true) :
    Continues e (e.place slot.worker (fun _ => b'.stats) b'.worker b'.shared) slot worker mailbox
      activity := by
  subst hpage
  rw [Bench.Fills, hworker, hshared] at hfills
  refine hfills.imp_left fun ⟨hdrained, hnow, window, hgrows, hafter⟩ =>
    ⟨hdrained, window, hgrows, h.grows hgrows hfilling ?_ ?_ ?_⟩
  · rw [workerAt?_place (w := slot.worker) hc hw, hafter, hserial]
    exact if_pos rfl
  · rw [crew?_place, if_pos (show slot.processor = slot.worker.processor from rfl),
      show e.crew? slot.worker.processor = some c from hc]
    exact hgo
  · exact hnow ▸ h.late

/-- An overdue worker has a next turn. -/
theorem Overdue.turn (h : e.Overdue slot worker) : e.slot? slot.worker = some slot ∧
    ∃ e', e.turn slot.worker = some e' ∧ e.TurnsLate e' slot worker := by
  obtain ⟨hslot, c, post, stats, hc, hw, hserial, hgo, hpage, hturn⟩ := h.bench
  refine ⟨hslot, ?_⟩
  let b : Bench σ := ⟨e.shared, stats, worker⟩
  have hfilling := h.filling
  cases hactivity : worker.activity with
  | waiting =>
    cases hqueue : worker.mailbox.queue with
    | nil =>
      obtain ⟨hb, hflush⟩ :=
        Bench.turn_of_late (p := post) (b := b) hactivity h.opened hqueue h.holds h.late
      refine ⟨_, hturn _ hb, fun _ _ => ?_, fun _ hcons => ?_, fun hhandling => ?_⟩
      · rw [hpage, hflush]
        exact Bench.flushPage_reads post b
      · rw [hqueue] at hcons
        cases hcons
      · rw [hactivity] at hhandling
        cases hhandling
    | cons m rest =>
      obtain ⟨hb, hreceive⟩ := Bench.turn_of_queue (p := post) (b := b) hactivity hqueue
      obtain ⟨htaken, hhandled, hfills⟩ := Bench.receive_reads post b m rest
      have hcontinues := h.continues hc hw hserial hgo hfills (hpage.trans hreceive) rfl rfl
        (Activity.isFilling_goingOn _)
      refine ⟨_, hturn _ hb, fun _ hnil => ?_, fun _ hcons => ?_, fun hhandling => ?_⟩
      · rw [hqueue] at hnil
        cases hnil
      · cases hqueue.symm.trans hcons
        rw [hpage, hreceive]
        exact ⟨htaken, hhandled, hcontinues⟩
      · rw [hactivity] at hhandling
        cases hhandling
  | handling events =>
    have hb : b.turn post false = some (b.handleNext post events) ∧
        b.turnPage post false = b.nextPage post events := by
      rw [Bench.turn, Bench.turnPage, show b.worker.activity = _ from hactivity]
      exact ⟨rfl, rfl⟩
    obtain ⟨htaken, hhandled, hfills⟩ := Bench.handleNext_reads post b events
    have hcontinues := h.continues hc hw hserial hgo hfills (hpage.trans hb.2) rfl rfl
      (Activity.isFilling_goingOn _)
    refine ⟨_, hturn _ hb.1, fun hwaiting => ?_, fun hwaiting => ?_, fun hagain => ?_⟩
    · rw [hactivity] at hwaiting
      cases hwaiting
    · rw [hactivity] at hwaiting
      cases hwaiting
    · cases hactivity.symm.trans hagain
      rw [hpage, hb.2]
      exact ⟨htaken, hhandled, hcontinues⟩
  | _ =>
    rw [hactivity] at hfilling
    cases hfilling

end Engine

namespace Plant

variable {first : Engine σ} {s s' s'' : Plant σ} {slot : Slot} {worker worker' worker'' : Worker}

/-- A worker whose time is over is still waiting for its flush: nothing has left its window. -/
structure StaysOverdue (s s' : Plant σ) (slot : Slot) (worker worker' : Worker) : Prop where
  overdue : s'.engine.Overdue slot worker'
  grows : worker.window.Grows worker'.window
  drained : (s'.diary slot).drained = (s.diary slot).drained

theorem StaysOverdue.trans (h : StaysOverdue s s' slot worker worker')
    (h' : StaysOverdue s' s'' slot worker' worker'') : StaysOverdue s s'' slot worker worker'' :=
  ⟨h'.overdue, h.grows.trans h'.grows, h'.drained.trans h.drained⟩

/-- The next turn of a worker flushes its window, with which it handled all messages or which is
full. -/
def FlushesNext (s : Plant σ) (slot : Slot) (worker : Worker) : Prop :=
  (s.engine.page slot.worker).drained ≠ [] ∧
    ((worker.activity = .waiting ∧ worker.mailbox.queue = []) ∨
      worker.window.minBatch ≤ (s.engine.page slot.worker).drained.length)

theorem overdue_turn (ho : s.engine.Overdue slot worker) :
    (∃ worker', StaysOverdue s (s.turn slot.worker) slot worker worker') ∨
      s.FlushesNext slot worker := by
  obtain ⟨hslot, e', hturn, hlate⟩ := ho.turn
  have hpages : (s.turn slot.worker).pages =
      s.pages ++ [(slot, s.engine.page slot.worker)] := by
    rw [turn, hturn, hslot]
  have hengine : (s.turn slot.worker).engine = e' := by
    rw [turn, hturn, hslot]
  have hcontinues : ∀ {mailbox : Mailbox Message} {activity : Activity},
      s.engine.Continues e' slot worker mailbox activity →
        (∃ worker', StaysOverdue s (s.turn slot.worker) slot worker worker') ∨
          s.FlushesNext slot worker := by
    rintro mailbox activity (⟨hdrained, window, hgrows, hafter⟩ | ⟨hfull, hsize⟩)
    · refine .inl ⟨_, hengine ▸ hafter, hgrows, ?_⟩
      rw [diary_append hpages, if_pos rfl, Diary.add, hdrained, List.append_nil]
    · refine .inr ⟨fun hnone => ?_, .inr hfull⟩
      rw [hnone] at hsize
      exact absurd (Nat.lt_of_lt_of_le ho.holds hsize) (Nat.lt_irrefl 0)
  have hfilling := ho.filling
  cases hactivity : worker.activity with
  | waiting =>
    cases hqueue : worker.mailbox.queue with
    | nil =>
      refine .inr ⟨fun hnone => ?_, .inl ⟨hactivity, hqueue⟩⟩
      have hsize := ho.holds
      rw [Window.size, ← Std.TreeMap.length_toList, ← (hlate.flushes hactivity hqueue).2.2, hnone]
        at hsize
      exact absurd hsize (Nat.lt_irrefl 0)
    | cons m rest => exact hcontinues (hlate.takes hactivity hqueue).2.2
  | handling events => exact hcontinues (hlate.goesOn hactivity).2.2
  | _ =>
    rw [hactivity] at hfilling
    cases hfilling

/-- A mailbox takes a message at most. -/
theorem deliver_brings {id : ProcessorId} {serial i : Nat} {m : Message} {e : Engine σ}
    (hd : s.engine.deliver id serial i m = .taken e)
    (hfound : s.engine.workerAt? slot = some worker) :
    ∃ mailbox, e.workerAt? slot = some { worker with mailbox } := by
  obtain ⟨target, htarget, _, hworkers⟩ := Engine.workerAt?_deliver hd
  rw [hworkers]
  split
  · next heq =>
    rw [← heq, hfound] at htarget
    cases htarget
    exact ⟨_, rfl⟩
  · exact ⟨worker.mailbox, hfound⟩

/-- A turn of another worker brings a message at most. -/
theorem Sound.turn_of_ne (h : s.Sound first) (hforward : ∀ id, first.forward? id ≠ some id)
    {w : WorkerId} (hne : w ≠ slot.worker) (hfound : s.engine.workerAt? slot = some worker) :
    (s.turn w).diary slot = s.diary slot ∧
      ∃ mailbox, (s.turn w).engine.workerAt? slot = some { worker with mailbox } := by
  rw [turn]
  split
  · next e own hturn hslot =>
    obtain ⟨c, hc, rfl⟩ := Option.map_eq_some_iff.1 hslot
    obtain ⟨c', other, hc', hother, _, other', counted, shared, e₁, rfl, hturned⟩ :=
      h.turned hturn
    rw [hc] at hc'
    cases hc'
    have hown : slot ≠ ⟨w.processor, c.serial, w.partition⟩ := by
      rintro rfl
      exact hne rfl
    have hmid := h.midway hforward hc hturned
    refine ⟨by rw [diary_append rfl, if_neg hown], ?_⟩
    show ∃ mailbox, (e₁.place w counted other' shared).workerAt? slot = _
    rw [Engine.workerAt?_place hmid.crew hother, if_neg hown]
    have hbrings := hturned.brings
    split at hbrings
    · subst hbrings
      exact ⟨worker.mailbox, hfound⟩
    · exact deliver_brings hbrings.2 hfound
  · exact ⟨rfl, worker.mailbox, hfound⟩

/-- Whatever happens next, short of telling the worker to stop or setting back the clock, an overdue
worker stays overdue, unless it takes its turn and flushes. -/
theorem Sound.overdue_step (h : s.Sound first) (hforward : ∀ id, first.forward? id ≠ some id)
    (ho : s.engine.Overdue slot worker) (m : Move σ)
    (hgo : (s.step m).isStopping slot.processor = false)
    (hlate : worker.window.deadline ≤ (s.step m).engine.shared.now) :
    (∃ worker', StaysOverdue s (s.step m) slot worker worker') ∨
      m = .turn slot.worker ∧ s.FlushesNext slot worker := by
  -- Moves of others bring messages at most.
  have hstays : ((s.step m).diary slot = s.diary slot ∧
      ∃ mailbox, (s.step m).engine.workerAt? slot = some { worker with mailbox }) →
        (∃ worker', StaysOverdue s (s.step m) slot worker worker') ∨
          m = .turn slot.worker ∧ s.FlushesNext slot worker := by
    rintro ⟨hdiary, mailbox, hfound⟩
    exact .inl ⟨_, ho.grows (.refl _) ho.filling hfound hgo hlate, .refl _, by rw [hdiary]⟩
  have hsame : s.engine.workerAt? slot = some { worker with mailbox := worker.mailbox } := ho.found
  have hmoves := moves_step s m
  generalize s.step m = s' at hmoves hgo hlate hstays ⊢
  cases hmoves with
  | stays => exact hstays ⟨rfl, _, hsame⟩
  | submits => exact hstays ⟨rfl, _, hsame⟩
  | delivers found next taken =>
    rw [deliver_eq found next taken] at hstays ⊢
    exact hstays ⟨rfl, deliver_brings taken ho.found⟩
  | skips => exact hstays ⟨rfl, _, hsame⟩
  | @turns w =>
    by_cases heq : w = slot.worker
    · subst heq
      exact (overdue_turn ho).imp_right fun hflush => ⟨rfl, hflush⟩
    · exact hstays (h.turn_of_ne hforward heq ho.found)
  | lines => exact hstays ⟨rfl, _, hsame⟩
  | shares => exact hstays ⟨rfl, _, hsame⟩
  | @starts id =>
    refine hstays ⟨rfl, worker.mailbox, ?_⟩
    by_cases heq : slot.processor = id
    · -- A processor with a crew that takes messages runs already.
      obtain ⟨c, hc, _⟩ := Option.bind_eq_some_iff.1 ho.found
      obtain ⟨p, hp, hcrew⟩ := Option.bind_eq_some_iff.1 hc
      have hwanted : c.isStopping = false := by simpa [hc] using ho.wanted
      have hrunning := h.engine.running hp hcrew hwanted
      show (s.engine.start id).workerAt? slot = _
      rw [← heq, Engine.start, hp]
      dsimp only
      rw [if_pos hrunning]
      exact hsame
    · exact (Engine.workerAt?_start_of_ne heq).trans hsame
  | @stops id =>
    exact hstays ⟨rfl, worker.mailbox, (Engine.workerAt?_beginStop id slot).trans hsame⟩
  | @finishes id stopping =>
    have hne : slot.processor ≠ id := by
      rintro rfl
      rw [isStopping, ho.wanted] at stopping
      cases stopping
    exact hstays ⟨rfl, worker.mailbox, (Engine.workerAt?_endStop_of_ne hne).trans hsame⟩

/-! ## Over a run -/

/-- Moves that neither tell a processor to stop nor set the clock back before a moment. -/
def Undisturbed (s : Plant σ) (id : ProcessorId) (moment : Nat) (moves : List (Move σ)) : Prop :=
  ∀ before after, moves = before ++ after →
    (s.run before).isStopping id = false ∧ moment ≤ (s.run before).engine.shared.now

theorem Sound.overdue_run (h : s.Sound first) (hforward : ∀ id, first.forward? id ≠ some id)
    (ho : s.engine.Overdue slot worker) {moves : List (Move σ)}
    (hquiet : s.Undisturbed slot.processor worker.window.deadline moves) :
    (∃ worker', StaysOverdue s (s.run moves) slot worker worker') ∨
      ∃ before after worker', moves = before ++ .turn slot.worker :: after ∧
        StaysOverdue s (s.run before) slot worker worker' ∧
        (s.run before).FlushesNext slot worker' := by
  induction moves generalizing s worker with
  | nil => exact .inl ⟨worker, ho, .refl _, rfl⟩
  | cons m moves ih =>
    obtain ⟨hgo, hlate⟩ := hquiet [m] moves rfl
    obtain ⟨worker₁, hstays⟩ | ⟨rfl, hflush⟩ := h.overdue_step hforward ho m hgo hlate
    · have hquiet' : (s.step m).Undisturbed slot.processor worker₁.window.deadline moves := by
        intro before after heq
        rw [hstays.grows.deadline]
        exact hquiet (m :: before) after (congrArg (m :: ·) heq)
      obtain ⟨worker', hrest⟩ | ⟨before, after, worker', rfl, hrest, hflush⟩ :=
        ih (step_sound h hforward m) hstays.overdue hquiet'
      · exact .inl ⟨worker', hstays.trans hrest⟩
      · exact .inr ⟨m :: before, after, worker', rfl, hstays.trans hrest, hflush⟩
    · exact .inr ⟨[], moves, worker, rfl, ⟨ho, .refl _, rfl⟩, hflush⟩

/-- A worker whose time is over flushes its window in its next turn if no message waits for it.
Otherwise it takes the oldest message, and handles all of it, a piece in each turn.  So it goes on,
whatever else happens, until its mailbox is empty or a message has made the window full. -/
theorem flushes_without_messages_or_full {e : Engine σ} (hfresh : e.Fresh) (moves : List (Move σ))
    {slot : Slot} {worker : Worker}
    (ho : (run { engine := e } moves).engine.Overdue slot worker) :
    let s := run { engine := e } moves
    (∃ e', s.engine.turn slot.worker = some e' ∧ s.engine.TurnsLate e' slot worker) ∧
    ∀ more, s.Undisturbed slot.processor worker.window.deadline more →
      (∃ worker', StaysOverdue s (s.run more) slot worker worker') ∨
        ∃ before after worker', more = before ++ .turn slot.worker :: after ∧
          StaysOverdue s (s.run before) slot worker worker' ∧
          (s.run before).FlushesNext slot worker' := by
  intro s
  exact ⟨ho.turn.2, fun more hquiet =>
    (sound_of_fresh hfresh moves).overdue_run hfresh.forward ho hquiet⟩

end Plant

/-! ## Orders that come while a flush is being retried -/

namespace Orders

open Plant.Move

/-- A flush after ten entries or a tenth of a second, which is tried again after a second. -/
def patient : Settings :=
  { settings with
    minFlushBatchSize := 10
    maxFlushInterval := 100
    flushRetry := { maxAttempts := 2, initialBackoff := 1000, maxBackoff := 1000 } }

/-- A pipeline that was not started, and whose first write is going to fail. -/
def patientEngine : Engine :=
  { shared := sharedWith [{ failure := .fault .store, times := 1 }]
    processors := ProcessorId.all.map fun id =>
      { id, settings := patient, forward := id.coarser? } }

theorem fresh_patientEngine : patientEngine.Fresh := by
  have hnew : Engine.pipeline patient patientEngine.shared = .ok patientEngine := rfl
  exact Engine.fresh_pipeline hnew fun _ => .refl _

/-- It is some time later. -/
def clock (moves : List Plant.Move) (now : Nat) : Plant.Move :=
  share ⟨{ (Plant.run { engine := patientEngine } moves).engine.shared with now },
    (Plant.sound_of_fresh fresh_patientEngine moves).engine.arranged⟩

/-- An order is in the window. -/
def firstOrder : List Plant.Move :=
  [start bySecond, submit bySecond [order 0], deliver 0, turn worker]

/-- The time of the window is over and its flush fails.  Two more orders come. -/
def twoMoreOrders : List Plant.Move :=
  firstOrder ++ [clock firstOrder 100, turn worker, submit bySecond [order 1000],
    submit bySecond [order 1000], deliver 1, deliver 2]

/-- The flush succeeds a second later, when the time of the window is over again.  The second order
is handled. -/
def lateOrders : List Plant.Move :=
  twoMoreOrders ++ [clock twoMoreOrders 1100, turn worker, turn worker, turn worker]

end Orders

namespace Plant

theorem overdue_lateOrders : ∃ worker,
    (run { engine := Orders.patientEngine } Orders.lateOrders).engine.Overdue Orders.slot worker ∧
      worker.activity = .waiting ∧ worker.mailbox.queue.length = 1 := by
  generalize hs : run { engine := Orders.patientEngine } Orders.lateOrders = s
  have hwanted : (s.engine.crew? Orders.slot.processor).any Crew.isStopping = false := by
    rw [← hs]
    decide +kernel
  have hany : (s.engine.workerAt? Orders.slot).any (fun w => w.isWaiting && !w.isClosing &&
      decide (0 < w.window.size ∧ w.window.deadline ≤ s.engine.shared.now) &&
      decide (w.mailbox.queue.length = 1)) = true := by
    rw [← hs]
    decide +kernel
  obtain ⟨worker, hfound, hworker⟩ := (Option.any_eq_true _ _).1 hany
  simp only [Bool.and_eq_true, Bool.not_eq_true', decide_eq_true_iff] at hworker
  obtain ⟨⟨⟨hwaits, hopened⟩, hholds, hlate⟩, hqueue⟩ := hworker
  have hwaiting := Worker.isWaiting_iff.1 hwaits
  exact ⟨worker, ⟨hfound, hwanted, by rw [hwaiting]; rfl, hopened, hholds, hlate⟩, hwaiting, hqueue⟩

theorem flushes_without_messages_or_full_lateOrders :
    let s := run { engine := Orders.patientEngine } Orders.lateOrders
    ∃ worker, s.engine.Overdue Orders.slot worker ∧ worker.mailbox.queue.length = 1 ∧
      (s.engine.turn Orders.worker).isSome = true ∧
      (s.engine.page Orders.worker).taken = worker.mailbox.queue := by
  obtain ⟨worker, ho, hwaiting, hlength⟩ := overdue_lateOrders
  obtain ⟨⟨e, hturn, hlate⟩, _⟩ := flushes_without_messages_or_full
    Orders.fresh_patientEngine Orders.lateOrders ho
  obtain ⟨m, hqueue⟩ := List.length_eq_one_iff.1 hlength
  exact ⟨worker, ho, hlength, by rw [show Orders.worker = Orders.slot.worker from rfl, hturn]; rfl,
    (hlate.takes hwaiting hqueue).1.trans hqueue.symm⟩

/-- In a run from the beginning a worker waits after the time of its window is over, and then
handles an order before it flushes what the window holds. -/
theorem late_order_before_flush :
    let s := run { engine := Orders.patientEngine } Orders.lateOrders
    (∃ worker, s.engine.Overdue Orders.slot worker ∧ worker.activity = .waiting) ∧
      (s.engine.page Orders.worker).handled.length = 1 ∧
      (s.engine.page Orders.worker).drained.length = 0 :=
  ⟨overdue_lateOrders.imp fun _ h => ⟨h.1, h.2.1⟩, by decide +kernel, by decide +kernel⟩

end Plant

end StatRollup
