import StatRollup.Proofs.Engine.EventKeys
import StatRollup.Proofs.Engine.Marks

/-!
# Workers hold entries of their own

An entry belongs to a processor when its key is of the processor's interval and its aggregate of the
processor's kind (`Own`).  This is a mark that does not depend on what is shared: an event is looked
up again before it is mapped, and what is mapped at a processor is of its kind and interval whatever
the definitions say by then (`Event.of_resolveAt`).  So definitions may change in any way during a
run, and still all entries that a worker holds belong to its processor (`Plant.entries_own`).

Aggregates of one kind merge.  So nothing that a worker handles fails to merge into its window
(`Bench.takes_of_own`).
-/

namespace StatRollup

variable {σ : Type} [Uid.Store σ]

/-- A pending aggregate that others are merged into keeps its source. -/
theorem Pending.of_merge {cap : Nat} {a b c : Pending} (h : a.merge cap b = .ok c) :
    ∃ aggregate, a.aggregate.merge cap b.aggregate = .ok aggregate ∧ c = { a with aggregate } := by
  rw [Pending.merge] at h
  cases haggregate : a.aggregate.merge cap b.aggregate with
  | error f => simp [haggregate, Except.map] at h
  | ok aggregate =>
    simp only [haggregate, Except.map, Except.ok.injEq] at h
    exact ⟨aggregate, rfl, h.symm⟩

/-- An entry of a processor. -/
structure Own (id : ProcessorId) (k : Key) (p : Pending) : Prop where
  interval : k.interval = id.interval
  kind : p.aggregate.kind = id.kind

/-! ## Keeping the mark -/

theorem ProcessorId.of_coarser? {id j : ProcessorId} (h : id.coarser? = some j) :
    j.kind = id.kind := by
  obtain ⟨interval, _, rfl⟩ := Option.map_eq_some_iff.1 h
  rfl

/-- Entries stay with the processors that they belong to, whatever happens to what is shared. -/
theorem kept_own (heard : Event → Prop) :
    Mark.Kept (fun _ : Shared σ => Own) heard
      fun s => ∀ entries, (s.arrange entries).Perm entries where
  arranged h := h
  merged ha _ hc := by
    obtain ⟨aggregate, haggregate, rfl⟩ := Pending.of_merge hc
    exact ⟨ha.interval, (Aggregate.kind_merge haggregate).trans ha.kind⟩
  onward hj h := ⟨rfl, h.kind.trans (ProcessorId.of_coarser? hj).symm⟩
  mapped _ h _ := ⟨h, id⟩
  maps {s event id pairs} _ _ hpairs x hx handle := by
    obtain ⟨definition, statistic, tagged, keys, hresolve, hkeys, rfl⟩ := of_mapEvent hpairs
    obtain ⟨k, hk, rfl⟩ := List.mem_map.1 hx
    obtain ⟨_, _, hprecision⟩ := Event.of_resolveAt hresolve
    exact ⟨(Key.of_build hkeys hk).1.trans hprecision,
      (kind_ofEvent s.cap event).trans (Event.kind_of_resolveAt hresolve)⟩
  noted _ _ h := ⟨h, id⟩
  written h _ := ⟨h, id⟩
  purged _ _ h := ⟨h, id⟩

/-! ## Nothing fails to merge -/

namespace Bench

variable {p : Post} {b : Bench σ} {id : ProcessorId}

/-- When an event is mapped, all of its entries are added to the window. -/
def Admits (p : Post) (b : Bench σ) (event : Event) : Prop :=
  ∀ pairs, (mapEvent b.shared.registry b.shared.dictionary b.shared.cap p.id.processor.kind
      p.id.processor.interval event).1 = .ok pairs →
    ∃ window, b.worker.window.addAll (Pending.merge p.settings.maxEventIds)
        (pairs.map fun x => (x.1, ⟨x.2, b.shared.nextHandle, event⟩)) = .ok window ∧
      (b.handleEvent p event).worker.window = window

/-- Everything that a message brings would be added to the window now: entries of others, and those
of every event that is mapped. -/
def Takes (p : Post) (b : Bench σ) : Message → Prop
  | .events events => ∀ event ∈ events, b.Admits p event
  | .rollups entries => ∃ window,
    b.worker.window.addAll (Pending.merge p.settings.maxEventIds) entries = .ok window ∧
      (b.handleRollups p entries).worker.window = window

/-- A bench whose entries belong to a processor. -/
abbrev HasOwn (id : ProcessorId) (b : Bench σ) : Prop :=
  b.Bears (fun _ => Own) (fun _ => True) (fun s => ∀ entries, (s.arrange entries).Perm entries) id

theorem admits_of_own (hp : p.id.processor = id) (hb : b.HasOwn id) (event : Event) :
    b.Admits p event := by
  subst hp
  intro pairs hpairs
  have hwindow : b.worker.window.All (OfKind p.id.processor.kind) :=
    hb.worker.window.imp fun _ _ h => h.kind
  have hentries : ∀ x ∈ pairs.map fun x => (x.1, (⟨x.2, b.shared.nextHandle, event⟩ : Pending)),
      OfKind p.id.processor.kind x.1 x.2 :=
    List.forall_mem_map.2 (mapEvent_kind hpairs)
  obtain ⟨window, hadd, _⟩ := Window.addAll_of_kind p.settings.maxEventIds hwindow hentries
  refine ⟨window, hadd, ?_⟩
  rw [handleEvent]
  dsimp only
  rw [hpairs]
  dsimp only
  rw [hadd]

/-- A worker whose entries belong to its processor takes all of a message that belongs there. -/
theorem takes_of_own (hp : p.id.processor = id) (hb : b.HasOwn id) {m : Message}
    (hm : ∀ x ∈ m.keyed, Own id x.1 x.2) : b.Takes p m := by
  cases m with
  | events events => exact fun event _ => admits_of_own hp hb event
  | rollups entries =>
    have hwindow : b.worker.window.All (OfKind id.kind) :=
      hb.worker.window.imp fun _ _ h => h.kind
    obtain ⟨window, hadd, hwindow, _⟩ :=
      handleRollups_kind p hwindow fun x hx => (hm x hx).kind
    exact ⟨window, hadd, hwindow⟩

end Bench

/-! ## In every run -/

namespace Plant

/-- In every run of a pipeline, whatever others do to the definitions, the dictionary and the
stores, all entries that a worker holds belong to its processor: those in its window, in its
mailbox, in a flush and in its hands; and those that it sends belong to the next one.  So whatever
it handles next, of a message in its hands or in its mailbox, is added to its window. -/
theorem entries_own {settings : Settings} {shared : Shared σ} {e : Engine σ}
    (hnew : Engine.pipeline settings shared = .ok e)
    (harranged : ∀ entries, (shared.arrange entries).Perm entries) (moves : List (Move σ))
    {slot : Slot} {w : Worker}
    (hw : (Plant.run { engine := e } moves).engine.workerAt? slot = some w) :
    w.Bears Own (fun _ => True) slot.processor ∧
      ∀ (p : Post) (stats : Stats), p.id.processor = slot.processor →
        ∀ m ∈ w.activity.pieces ++ w.mailbox.queue.flatMap Message.pieces,
          Bench.Takes p ⟨(Plant.run { engine := e } moves).engine.shared, stats, w⟩ m := by
  have hlaid := Engine.laid_pipeline hnew harranged
  have hallows : Allows (fun _ s => ∀ entries, (s.arrange entries).Perm entries)
      { engine := e } moves := fun _ shared _ _ => shared.2
  have hbears := run_bears (kept_own fun _ => True)
    (bears_of_laid hlaid hlaid.fresh.arranged) (fun h _ => ⟨h, id⟩) hallows fun _ _ => trivial
  have hworker := hbears.engine.at_slot hw
  refine ⟨hworker, fun p stats hp m hm => ?_⟩
  refine Bench.takes_of_own hp ⟨hbears.engine.shared, hworker⟩ ?_
  rcases List.mem_append.1 hm with hm | hm
  · rw [Activity.keyed_of_mem_pieces hm]
    exact List.forall_mem_nil _
  · obtain ⟨message, hmessage, hpiece⟩ := List.mem_flatMap.1 hm
    exact fun x hx => (hworker.mailbox message hmessage).keyed x
      ((Message.subset_of_mem_pieces hpiece).2 hx)

/-- An order was counted by second and handed on, and then its definition was removed.  What waits
for the worker that counts by minute belongs there all the same, and merges. -/
theorem entries_own_removed :
    let removed : Shared := { Orders.sharedWith [] with registry := .empty }
    let moves := Orders.relayMoves ++ [.share ⟨removed, fun _ => .refl _⟩]
    let s := Plant.run { engine := Orders.engineWith [] } moves
    ∃ w entries, s.engine.workerAt? Orders.slotByMinute = some w ∧
      w.mailbox.queue = [.rollups entries] ∧ entries.length = 1 ∧
      w.Bears Own (fun _ => True) Orders.byMinute ∧
      Bench.Takes ⟨⟨Orders.byMinute, 0⟩, Orders.settings, none⟩ ⟨s.engine.shared, {}, w⟩
        (.rollups entries) := by
  intro removed moves s
  have hnew : Engine.pipeline Orders.settings (Orders.sharedWith []) =
      .ok (Orders.engineWith []) := rfl
  have hsome : (s.engine.workerAt? Orders.slotByMinute).isSome = true := by decide +kernel
  have hwaiting : (s.waiting Orders.slotByMinute).map (fun m => m.keyed.length) = [1] := by
    decide +kernel
  obtain ⟨w, hw⟩ := Option.isSome_iff_exists.1 hsome
  rw [waiting, hw, Option.map_some, Option.getD_some] at hwaiting
  obtain ⟨m, hqueue, hlength⟩ : ∃ m, w.mailbox.queue = [m] ∧ m.keyed.length = 1 := by
    simpa [List.map_eq_singleton_iff] using hwaiting
  obtain ⟨hbears, htakes⟩ := entries_own hnew (fun _ => .refl _) moves hw
  cases m with
  | events => cases hlength
  | rollups entries =>
    refine ⟨w, entries, hw, hqueue, hlength, hbears, htakes _ {} rfl _ ?_⟩
    rw [hqueue]
    exact List.mem_append_right _ (List.mem_singleton_self _)

end Plant

end StatRollup
