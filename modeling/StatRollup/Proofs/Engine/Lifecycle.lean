import StatRollup.Proofs.Engine.Ledger

/-!
# Starts and stops

Starting a processor, telling it to stop and ending its run put another processor in its place, with
the same settings, counters and next processor (`Engine.Replaces`).  All other processors stay, and
so do their workers (`Engine.Replaces.workerAt?`).  If there is nothing to start or to stop, nothing
changes up to the order in which workers are woken.
-/

namespace StatRollup

variable {σ : Type} [Uid.Store σ]

namespace Engine

variable {e e' first : Engine σ} {id j : ProcessorId} {p p' : Processor}

theorem Alike.processor? (h : Alike e e') (id : ProcessorId) :
    e'.processor? id = e.processor? id := by
  rw [Engine.processor?, Engine.processor?, h.processors]

/-- An engine in which one processor was put in the place of another. -/
structure Replaces (e e' : Engine σ) (id : ProcessorId) (p p' : Processor) : Prop where
  found : e.processor? id = some p
  processor (j : ProcessorId) : e'.processor? j = if j = id then some p' else e.processor? j
  settings : p'.settings = p.settings
  forward : p'.forward = p.forward
  stats : p'.stats = p.stats
  shared : e'.shared = e.shared
  ids : e'.processors.map Processor.id = e.processors.map Processor.id
  nextSerial : e.nextSerial ≤ e'.nextSerial

/-! ## Three kinds of replacement -/

theorem nextSerial_start (hp : e.processor? id = some p) (hstate : p.state ≠ .running) :
    (e.start id).nextSerial = e.nextSerial + 1 := by
  rw [start, hp]
  dsimp only
  rw [if_neg hstate, nextSerial_foldl nextSerial_wake]

theorem replaces_start (hp : e.processor? id = some p) (hstate : p.state ≠ .running) :
    e.Replaces (e.start id) id p (p.start e.nextSerial e.shared.now) := by
  have hid : ∀ p : Processor, (p.start e.nextSerial e.shared.now).id = p.id := fun _ => rfl
  refine ⟨hp, fun j => ?_, rfl, rfl, rfl, e.shared_start id, ?_, ?_⟩
  · rw [start, hp]
    dsimp only
    rw [if_neg hstate, (alike_foldl alike_wake _ _).processor?]
    refine (processor?_modify hid).trans ?_
    rw [hp]
    rfl
  · rw [start, hp]
    dsimp only
    rw [if_neg hstate, (alike_foldl alike_wake _ _).processors]
    exact ids_modify hid
  · rw [nextSerial_start hp hstate]
    exact Nat.le_succ _

theorem replaces_beginStop (hp : e.processor? id = some p) :
    e.Replaces (e.beginStop id) id p p.beginStop := by
  have hid : ∀ p : Processor, p.beginStop.id = p.id := fun p => by rw [beginStop_eq]
  have halike := alike_foldl (σ := σ) alike_wakeIfWaiting
  refine ⟨hp, fun j => ?_, by rw [beginStop_eq], by rw [beginStop_eq], by rw [beginStop_eq],
    e.shared_beginStop id, ?_, ?_⟩
  · rw [beginStop, (halike _ _).processor?, processor?_modify hid, hp]
    rfl
  · rw [beginStop, (halike _ _).processors, ids_modify hid]
  · rw [beginStop, nextSerial_foldl nextSerial_wakeIfWaiting]
    exact Nat.le_refl _

theorem replaces_endStop (hp : e.processor? id = some p) :
    e.Replaces (e.endStop id).2 id p p.endStop.2 := by
  have hid : ∀ p : Processor, p.endStop.2.id = p.id := fun p => by rw [endStop_eq]
  rw [endStop, hp]
  refine ⟨hp, fun j => ?_, by rw [endStop_eq], by rw [endStop_eq], by rw [endStop_eq], rfl,
    ids_modify hid, Nat.le_refl _⟩
  refine (processor?_modify hid).trans ?_
  rw [hp]
  rfl

theorem start_cases (e : Engine σ) (id : ProcessorId) : e.start id = e ∨ ∃ p, p.state ≠ .running ∧
    e.Replaces (e.start id) id p (p.start e.nextSerial e.shared.now) := by
  cases hp : e.processor? id with
  | none =>
    rw [start, hp]
    exact .inl rfl
  | some p =>
    by_cases hstate : p.state = .running
    · rw [start, hp]
      dsimp only
      rw [if_pos hstate]
      exact .inl rfl
    · exact .inr ⟨p, hstate, replaces_start hp hstate⟩

theorem beginStop_cases (e : Engine σ) (id : ProcessorId) :
    (Alike e (e.beginStop id) ∧ (e.beginStop id).nextSerial = e.nextSerial) ∨
      ∃ p, e.Replaces (e.beginStop id) id p p.beginStop := by
  cases hp : e.processor? id with
  | none =>
    have hsame : Alike e (e.modify id Processor.beginStop) := by
      refine ⟨?_, rfl⟩
      refine (List.map_congr_left fun q hq => if_neg fun hid => ?_).trans (List.map_id' _)
      rw [processor?, List.find?_eq_none] at hp
      exact hp q hq (by simpa using hid)
    exact .inl ⟨hsame.trans (alike_foldl alike_wakeIfWaiting _ _),
      nextSerial_foldl nextSerial_wakeIfWaiting _ _⟩
  | some p => exact .inr ⟨p, replaces_beginStop hp⟩

theorem endStop_cases (e : Engine σ) (id : ProcessorId) :
    (e.endStop id).2 = e ∨ ∃ p, e.Replaces (e.endStop id).2 id p p.endStop.2 := by
  cases hp : e.processor? id with
  | none =>
    rw [endStop, hp]
    exact .inl rfl
  | some p => exact .inr ⟨p, replaces_endStop hp⟩

/-! ## What stays the same -/

namespace Replaces

variable (h : e.Replaces e' id p p')
include h

theorem own : e'.processor? id = some p' := by rw [h.processor, if_pos rfl]

theorem other (hne : j ≠ id) : e'.processor? j = e.processor? j := by rw [h.processor, if_neg hne]

theorem crew?_own : e'.crew? id = p'.crew := crew?_eq h.own

theorem crew?_other (hne : j ≠ id) : e'.crew? j = e.crew? j := by rw [crew?, crew?, h.other hne]

theorem forward? (j : ProcessorId) : e'.forward? j = e.forward? j := by
  by_cases hj : j = id
  · rw [hj, Engine.forward?, Engine.forward?, h.own, h.found, Option.bind_some, Option.bind_some,
      h.forward]
  · rw [Engine.forward?, Engine.forward?, h.other hj]

theorem partitioner? (j : ProcessorId) : e'.partitioner? j = e.partitioner? j := by
  by_cases hj : j = id
  · rw [hj, Engine.partitioner?, Engine.partitioner?, h.own, h.found, Option.map_some,
      Option.map_some, Processor.partitioner, Processor.partitioner, h.settings]
  · rw [Engine.partitioner?, Engine.partitioner?, h.other hj]

theorem workerAt? (slot : Slot) : e'.workerAt? slot =
    if slot.processor = id then
      p'.crew.bind fun c => if c.serial = slot.serial then c.workers[slot.partition]? else none
    else e.workerAt? slot := by
  split
  · next hid => rw [Engine.workerAt?, hid, h.crew?_own]
  · next hne => rw [Engine.workerAt?, h.crew?_other hne, Engine.workerAt?]

/-- Another state or crew of a processor keeps the order. -/
theorem orderly (ho : Orderly first e) (hcrew : ∀ c, p'.crew = some c →
    c.serial < e'.nextSerial ∧ (c.isStopping = false → p'.state = .running)) :
    Orderly first e' where
  partitioner j := (h.partitioner? j).trans (ho.partitioner j)
  forward j := (h.forward? j).trans (ho.forward j)
  arranged := h.shared ▸ ho.arranged
  running {j q c} hq hc hgo := by
    by_cases hj : j = id
    · subst hj
      cases h.own.symm.trans hq
      exact (hcrew c hc).2 hgo
    · exact ho.running ((h.other hj).symm.trans hq) hc hgo
  serial {j c} hc := by
    by_cases hj : j = id
    · subst hj
      exact (hcrew c (h.crew?_own.symm.trans hc)).1
    · exact Nat.lt_of_lt_of_le (ho.serial ((h.crew?_other hj).symm.trans hc)) h.nextSerial

end Replaces

/-- Telling a processor to stop leaves its workers where they are. -/
theorem workerAt?_beginStop (id : ProcessorId) (slot : Slot) :
    (e.beginStop id).workerAt? slot = e.workerAt? slot := by
  obtain ⟨halike, _⟩ | ⟨p, hreplaces⟩ := beginStop_cases e id
  · exact halike.workerAt? slot
  · rw [hreplaces.workerAt?]
    split
    · next hid =>
      rw [Engine.workerAt?, hid, crew?_eq hreplaces.found, beginStop_eq, Option.bind_map]
      rfl
    · rfl

/-- Starting another processor leaves a worker where it is. -/
theorem workerAt?_start_of_ne {slot : Slot} (hne : slot.processor ≠ id) :
    (e.start id).workerAt? slot = e.workerAt? slot := by
  obtain heq | ⟨p, _, hreplaces⟩ := start_cases e id
  · rw [heq]
  · rw [hreplaces.workerAt?, if_neg hne]

/-- Ending the run of another processor leaves a worker where it is. -/
theorem workerAt?_endStop_of_ne {slot : Slot} (hne : slot.processor ≠ id) :
    (e.endStop id).2.workerAt? slot = e.workerAt? slot := by
  obtain heq | ⟨p, hreplaces⟩ := endStop_cases e id
  · rw [heq]
  · rw [hreplaces.workerAt?, if_neg hne]

end Engine

end StatRollup
