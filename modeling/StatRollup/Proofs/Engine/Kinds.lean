import StatRollup.Proofs.Engine.Plant

/-!
# Entries of one kind

A processor only maps events of its kind, and is only handed entries of its kind.  So the entries
that meet in a window are of one kind, and they merge (`Window.addAll_of_kind`): none is dropped
when it is handled.  `Bench.Steps.keeps_kind` says that a turn keeps this, and that the entries
which leave the window are of the kind as well.
-/

namespace StatRollup

variable {σ : Type} [Uid.Store σ]

/-- A pending aggregate of a kind, under whatever key. -/
def OfKind (kind : Statistic.Kind) (_ : Key) (p : Pending) : Prop := p.aggregate.kind = kind

variable {kind : Statistic.Kind} {window window' : Window Key Pending} {entries : List Entry}

namespace Window

theorem merges_ofKind (cap : Nat) (kind : Statistic.Kind) :
    Merges (Pending.merge cap) (OfKind kind) fun (i : Empty) _ => i.elim where
  merged {k a b} ha hb := by
    obtain ⟨c, hc⟩ := (Aggregate.merge_isOk_iff cap a.aggregate b.aggregate).2 (ha.trans hb.symm)
    exact ⟨{ a with aggregate := c }, by rw [Pending.merge, hc]; rfl,
      (Aggregate.kind_merge hc).trans ha, fun i => i.elim⟩

/-- Entries of one kind all merge. -/
theorem addAll_of_kind (cap : Nat) (hw : window.All (OfKind kind))
    (hall : ∀ x ∈ entries, OfKind kind x.1 x.2) :
    ∃ window', window.addAll (Pending.merge cap) entries = .ok window' ∧
      window'.All (OfKind kind) := by
  obtain ⟨window', hadd, hkind, _⟩ := addAll_ok (merges_ofKind cap kind) hw entries hall
  exact ⟨window', hadd, hkind⟩

theorem kind_of_addAll {cap : Nat} (hw : window.All (OfKind kind))
    (hall : ∀ x ∈ entries, OfKind kind x.1 x.2)
    (hadd : window.addAll (Pending.merge cap) entries = .ok window') :
    window'.All (OfKind kind) := by
  obtain ⟨window₁, hadd₁, hkind⟩ := addAll_of_kind cap hw hall
  rw [hadd] at hadd₁
  cases hadd₁
  exact hkind

theorem toList_of_kind (hw : window.All (OfKind kind)) :
    ∀ x ∈ window.entries.toList, OfKind kind x.1 x.2 :=
  fun x hx => hw x.1 x.2 (mem_toList hx)

end Window

/-! ## Mapping -/

theorem kind_ofEvent (cap : Nat) (e : Event) : (Aggregate.ofEvent cap e).kind = e.reading.kind := by
  rw [Aggregate.ofEvent]
  cases e.reading <;> rfl

theorem Event.kind_of_resolveAt {registry : Registry} {interval : Interval} {e : Event}
    {s : Statistic} (h : e.resolveAt registry kind interval = .ok s) : e.reading.kind = kind := by
  obtain ⟨hresolve, hkind, _⟩ := of_resolveAt h
  obtain ⟨_, hreading, _⟩ := of_resolve hresolve
  exact hreading.trans hkind

/-- A processor maps events to aggregates of its kind. -/
theorem mapEvent_kind {σ : Type} [Uid.Store σ] {registry : Registry} {d : Uid.Dictionary σ}
    {cap : Nat} {interval : Interval} {e : Event} {pairs : List (Key × Aggregate)}
    (h : (mapEvent registry d cap kind interval e).1 = .ok pairs) :
    ∀ x ∈ pairs, x.2.kind = kind := by
  obtain ⟨s, statistic, tagged, keys, hresolve, _, rfl⟩ := of_mapEvent h
  intro x hx
  obtain ⟨k, _, rfl⟩ := List.mem_map.1 hx
  exact (kind_ofEvent cap e).trans (Event.kind_of_resolveAt hresolve)

/-! ## Turns -/

/-- What a message brings is of a kind; events are mapped to it. -/
def Message.OfKind (kind : Statistic.Kind) (m : Message) : Prop :=
  ∀ x ∈ m.keyed, StatRollup.OfKind kind x.1 x.2

namespace Bench

variable {p : Post} {b b' : Bench σ} {trigger : Trigger}

theorem handleEvent_kind (hw : b.worker.window.All (OfKind p.id.processor.kind)) (e : Event) :
    (b.handleEvent p e).worker.window.All (OfKind p.id.processor.kind) := by
  rw [handleEvent]
  dsimp only
  split
  · exact hw
  · next pairs hmapped =>
    split
    · next window hadd =>
      refine Window.kind_of_addAll hw (fun x hx => ?_) hadd
      obtain ⟨y, hy, rfl⟩ := List.mem_map.1 hx
      exact mapEvent_kind hmapped y hy
    · exact hw

/-- Entries of the kind of a window all merge into it. -/
theorem handleRollups_kind (p : Post) (hw : b.worker.window.All (OfKind kind))
    (hall : ∀ x ∈ entries, OfKind kind x.1 x.2) :
    ∃ window, b.worker.window.addAll (Pending.merge p.settings.maxEventIds) entries = .ok window ∧
      (b.handleRollups p entries).worker.window = window ∧ window.All (OfKind kind) := by
  obtain ⟨window, hadd, hkind⟩ := Window.addAll_of_kind p.settings.maxEventIds hw hall
  exact ⟨window, hadd, Window.addEach_of_addAll hadd, hkind⟩

theorem drained_roundPage (p : Post) (b : Bench σ) (f : Flush) :
    (b.roundPage p f).drained = [] := by
  rw [roundPage]
  split <;> rfl

theorem round_kind (hw : b.worker.window.All (OfKind kind)) (f : Flush) :
    (b.round p trigger f).worker.window.All (OfKind kind) := by
  rw [round]
  dsimp only
  split
  · exact Window.all_of_empty rfl
  · split <;> exact hw

theorem flush_kind (hw : b.worker.window.All (OfKind kind)) :
    (b.flush p trigger).worker.window.All (OfKind kind) ∧
      ∀ x ∈ (b.flushPage p).drained, OfKind kind x.1 x.2 := by
  have hempty : (b.worker.window.drain b.shared.now).2.All (OfKind kind) :=
    Window.all_of_empty rfl
  have hall := Window.toList_of_kind hw
  rw [flush, flushPage]
  dsimp only [Window.drain]
  cases b.shared.arrange b.worker.window.entries.toList with
  | nil =>
    obtain ⟨lastPurge, hworker, _⟩ := afterFlush_worker p { b with
      worker := { b.worker with window := (b.worker.window.drain b.shared.now).2 } } trigger
    exact ⟨hworker ▸ hempty, hall⟩
  | cons x batch =>
    refine ⟨round_kind hempty _, ?_⟩
    simp only [Diary.add, drained_roundPage, List.append_nil]
    exact hall

section

variable {page : Diary}

/-- A step keeps the window of the kind, and entries of the kind leave it. -/
theorem Step.keeps_kind (h : Step p stopping page b b')
    (hw : b.worker.window.All (OfKind p.id.processor.kind))
    (hm : ∀ m ∈ b.worker.mailbox.queue, m.OfKind p.id.processor.kind) :
    b'.worker.window.All (OfKind p.id.processor.kind) ∧
      ∀ x ∈ page.drained, OfKind p.id.processor.kind x.1 x.2 := by
  cases h with
  | closes => exact ⟨hw, List.forall_mem_nil _⟩
  | takes => exact ⟨hw, List.forall_mem_nil _⟩
  | @rollups _ entries rest _ hqueue =>
    obtain ⟨window, _, hwindow, hkind⟩ := handleRollups_kind (b := b.takeUp (.rollups entries) rest)
      p hw (hm _ (hqueue ▸ List.mem_cons_self))
    exact ⟨hwindow ▸ hkind, List.forall_mem_nil _⟩
  | @event _ e rest =>
    exact ⟨handleEvent_kind
      (b := { b with worker := { b.worker with activity := .handling rest } }) hw e,
      List.forall_mem_nil _⟩
  | ends => exact ⟨hw, List.forall_mem_nil _⟩
  | flushes => exact flush_kind hw
  | rounds =>
    rw [drained_roundPage]
    exact ⟨round_kind hw _, List.forall_mem_nil _⟩

/-- So does a turn. -/
theorem Steps.keeps_kind (h : Steps p stopping page b b')
    (hw : b.worker.window.All (OfKind p.id.processor.kind))
    (hm : ∀ m ∈ b.worker.mailbox.queue, m.OfKind p.id.processor.kind) :
    b'.worker.window.All (OfKind p.id.processor.kind) ∧
      ∀ x ∈ page.drained, OfKind p.id.processor.kind x.1 x.2 := by
  induction h with
  | one step => exact step.keeps_kind hw hm
  | cons step _ ih =>
    obtain ⟨hwindow, hfirst⟩ := step.keeps_kind hw hm
    obtain ⟨hwindow', hrest⟩ := ih hwindow fun m hmem => hm m (step.queue hmem)
    exact ⟨hwindow', List.forall_mem_append.2 ⟨hfirst, hrest⟩⟩

end

end Bench

end StatRollup
