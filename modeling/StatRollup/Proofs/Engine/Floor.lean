import Mathlib.Algebra.BigOperators.Group.List.Basic
import Mathlib.Algebra.Ring.Nat
import StatRollup.Engine.Schedule

/-!
# Workers of an engine, one at a time

Every small step of an engine changes one processor, or one worker of it, and leaves all others as
they were.  This module says so as equations of lookups, and as sums over all workers: changing one
worker changes a sum by what that worker adds to it (`total_place`).  Which workers are in line
matters for neither.
-/

namespace StatRollup

variable {σ : Type} [Uid.Store σ]

namespace Processor

/-- The workers of a processor. -/
def workers (p : Processor) : List Worker := (p.crew.map Crew.workers).getD []

end Processor

namespace Engine

variable {e e' : Engine σ} {id j : ProcessorId} {p : Processor} {crew : Crew} {worker : Worker}
  {i : Nat} {w : WorkerId}

/-- The crew of a processor. -/
def crew? (e : Engine σ) (id : ProcessorId) : Option Crew := (e.processor? id).bind Processor.crew

/-- Whether the workers of a processor were told to stop, if it has workers. -/
def told? (e : Engine σ) (id : ProcessorId) : Option Bool := (e.crew? id).map Crew.isStopping

/-- A measure of workers, added up over all of them. -/
def total (f : Worker → Nat) (e : Engine σ) : Nat :=
  (e.processors.map fun p => (p.workers.map f).sum).sum

/-! ## One processor -/

theorem id_of_processor? (h : e.processor? id = some p) : p.id = id := by
  simpa using List.find?_some h

theorem mem_of_processor? (h : e.processor? id = some p) : p ∈ e.processors :=
  List.mem_of_find?_eq_some h

theorem crew?_eq (h : e.processor? id = some p) : e.crew? id = p.crew := by
  rw [crew?, h, Option.bind_some]

/-- A crew that is not told to stop is the one that its processor finds. -/
theorem openCrew?_of_crew? (hc : e.crew? id = some crew) (hgo : crew.isStopping = false) :
    ∃ q, e.processor? id = some q ∧ q.openCrew? = some crew := by
  obtain ⟨q, hq, hcrew⟩ := Option.bind_eq_some_iff.1 hc
  exact ⟨q, hq, by rw [Processor.openCrew?, hcrew, Option.filter, hgo]; rfl⟩

theorem ids_nodup : ProcessorId.all.Nodup := by decide

theorem processor?_of_mem (hids : (e.processors.map Processor.id).Nodup) (h : p ∈ e.processors) :
    e.processor? p.id = some p := by
  rw [processor?]
  generalize e.processors = ps at hids h
  induction ps with
  | nil => cases h
  | cons q ps ih =>
    obtain ⟨hnot, hrest⟩ := List.nodup_cons.1 hids
    rcases List.mem_cons.1 h with rfl | hmem
    · simp
    · have hne : q.id ≠ p.id := fun heq => hnot (heq ▸ List.mem_map_of_mem hmem)
      rw [List.find?_cons_of_neg (by simpa using hne)]
      exact ih hrest hmem

section

variable {f : Processor → Processor} (hf : ∀ p, (f p).id = p.id)
include hf

theorem processor?_modify : (e.modify id f).processor? j =
    if j = id then (e.processor? id).map f else e.processor? j := by
  have hid : ∀ p : Processor, (if p.id = id then f p else p).id = p.id := by
    intro p
    split
    · exact hf p
    · rfl
  rw [processor?, modify, List.find?_map]
  have hcomp : ((fun p : Processor => p.id == j) ∘ fun p => if p.id = id then f p else p) =
      fun p => p.id == j := by
    funext p
    rw [Function.comp_apply, hid]
  rw [hcomp]
  split
  · next heq =>
    subst heq
    cases hp : e.processor? j with
    | none =>
      rw [processor?] at hp
      rw [hp]
      rfl
    | some p =>
      have hpid := id_of_processor? hp
      rw [processor?] at hp
      rw [hp, Option.map_some, if_pos hpid, Option.map_some]
  · next hne =>
    cases hp : e.processor? j with
    | none =>
      rw [processor?] at hp
      rw [hp]
      rfl
    | some p =>
      have hpid := id_of_processor? hp
      rw [processor?] at hp
      rw [hp, Option.map_some, if_neg fun h => hne (hpid.symm.trans h)]

theorem crew?_modify : (e.modify id f).crew? j =
    if j = id then (e.processor? id).bind fun p => (f p).crew else e.crew? j := by
  rw [crew?, processor?_modify hf]
  split
  · cases e.processor? id <;> rfl
  · rfl

theorem ids_modify :
    (e.modify id f).processors.map Processor.id = e.processors.map Processor.id := by
  rw [modify, List.map_map]
  refine List.map_congr_left fun p _ => ?_
  rw [Function.comp_apply]
  split
  · exact hf p
  · rfl

end

/-- Changing a processor changes a sum by what it adds. -/
theorem sum_modify (hids : (e.processors.map Processor.id).Nodup) (hp : e.processor? id = some p)
    (g : Processor → Nat) :
    ∃ rest, (e.processors.map g).sum = rest + g p ∧
      ∀ f, ((e.modify id f).processors.map g).sum = rest + g (f p) := by
  rw [processor?] at hp
  simp only [modify]
  generalize e.processors = ps at hids hp
  induction ps with
  | nil => cases hp
  | cons q ps ih =>
    obtain ⟨hnot, hrest⟩ := List.nodup_cons.1 hids
    by_cases hq : q.id = id
    · rw [List.find?_cons_of_pos (by simpa using hq)] at hp
      cases hp
      refine ⟨(ps.map g).sum, by rw [List.map_cons, List.sum_cons, Nat.add_comm], fun f => ?_⟩
      have hsame : ps.map (fun p => if p.id = id then f p else p) = ps := by
        refine (List.map_congr_left fun x hx => if_neg fun heq => hnot ?_).trans (List.map_id' ps)
        rw [hq, ← heq]
        exact List.mem_map_of_mem hx
      rw [List.map_cons, List.map_cons, hsame, if_pos hq, List.sum_cons, Nat.add_comm]
    · rw [List.find?_cons_of_neg (by simpa using hq)] at hp
      obtain ⟨rest, hold, hnew⟩ := ih hrest hp
      refine ⟨g q + rest, ?_, fun f => ?_⟩
      · rw [List.map_cons, List.sum_cons, hold, Nat.add_assoc]
      · rw [List.map_cons, List.map_cons, if_neg hq, List.sum_cons, hnew, Nat.add_assoc]

/-- Changing an element of a list changes a sum by what it adds. -/
theorem sum_set {α : Type} (g : α → Nat) {l : List α} {a : α} (h : l[i]? = some a) :
    ∃ rest, (l.map g).sum = rest + g a ∧ ∀ b, ((l.set i b).map g).sum = rest + g b := by
  induction l generalizing i with
  | nil => cases h
  | cons x l ih =>
    cases i with
    | zero =>
      cases h
      refine ⟨(l.map g).sum, ?_, fun b => ?_⟩
      · rw [List.map_cons, List.sum_cons, Nat.add_comm]
      · rw [List.set_cons_zero, List.map_cons, List.sum_cons, Nat.add_comm]
    | succ i =>
      obtain ⟨rest, hold, hnew⟩ := ih h
      refine ⟨g x + rest, ?_, fun b => ?_⟩
      · rw [List.map_cons, List.sum_cons, hold, Nat.add_assoc]
      · rw [List.set_cons_succ, List.map_cons, List.sum_cons, hnew, Nat.add_assoc]

/-! ## One worker -/

/-- Puts another worker in a place, with changed counters and shared parts. -/
def place (e : Engine σ) (w : WorkerId) (counted : Stats → Stats) (worker : Worker)
    (shared : Shared σ) : Engine σ :=
  { e.modify w.processor fun p =>
      ({ p with stats := counted p.stats } : Processor).setWorker w.partition worker with
    shared }

variable {counted : Stats → Stats} {shared : Shared σ}

@[simp] theorem shared_place : (e.place w counted worker shared).shared = shared := rfl

theorem processor?_place : (e.place w counted worker shared).processor? j =
    if j = w.processor then (e.processor? w.processor).map fun p =>
      ({ p with stats := counted p.stats } : Processor).setWorker w.partition worker
    else e.processor? j :=
  processor?_modify (e := e) fun _ => rfl

theorem crew?_place : (e.place w counted worker shared).crew? j =
    if j = w.processor then (e.crew? w.processor).map fun c =>
      { c with workers := c.workers.set w.partition worker }
    else e.crew? j := by
  rw [crew?, processor?_place]
  split
  · rw [crew?]
    cases e.processor? w.processor <;> rfl
  · rfl

theorem told?_place (hc : e.crew? w.processor = some crew) (id : ProcessorId) :
    (e.place w counted worker shared).told? id = e.told? id := by
  rw [told?, told?, crew?_place]
  split
  · next heq =>
    subst heq
    rw [hc]
    rfl
  · rfl

theorem ids_place :
    (e.place w counted worker shared).processors.map Processor.id = e.processors.map Processor.id :=
  ids_modify (e := e) fun _ => rfl

/-- Another worker in a place changes a sum by what it adds. -/
theorem total_place (hids : (e.processors.map Processor.id).Nodup)
    (hcrew : e.crew? w.processor = some crew) (hworker : crew.workers[w.partition]? = some worker)
    (f : Worker → Nat) :
    ∃ rest, e.total f = rest + f worker ∧ ∀ counted worker' shared,
      (e.place w counted worker' shared).total f = rest + f worker' := by
  obtain ⟨p, hp, hpcrew⟩ := Option.bind_eq_some_iff.1 hcrew
  obtain ⟨others, hold, hnew⟩ := sum_modify hids hp fun p => (p.workers.map f).sum
  obtain ⟨rest, hset, hset'⟩ := sum_set f hworker
  refine ⟨others + rest, ?_, fun counted worker' shared => ?_⟩
  · rw [total, hold, Processor.workers, hpcrew, Option.map_some, Option.getD_some, hset,
      Nat.add_assoc]
  · show (((e.modify w.processor _).processors.map _).sum) = _
    rw [hnew, Processor.workers, Processor.setWorker]
    simp only [hpcrew, Option.map_some, Option.getD_some]
    rw [hset', Nat.add_assoc]

/-- Measures that agree on all workers have the same sum. -/
theorem total_congr (hids : (e.processors.map Processor.id).Nodup) {f g : Worker → Nat}
    (h : ∀ id c, e.crew? id = some c → ∀ w ∈ c.workers, f w = g w) : e.total f = e.total g := by
  refine congrArg List.sum (List.map_congr_left fun p hp => congrArg List.sum ?_)
  refine List.map_congr_left fun w hw => ?_
  rw [Processor.workers] at hw
  cases hcrew : p.crew with
  | none =>
    rw [hcrew] at hw
    cases hw
  | some c =>
    rw [hcrew] at hw
    refine h p.id c ?_ w hw
    rw [crew?, processor?_of_mem hids hp]
    exact hcrew

/-! ## Who is in line -/

/-- Two engines that differ in which workers are in line at most. -/
structure Alike (e e' : Engine σ) : Prop where
  processors : e'.processors = e.processors
  shared : e'.shared = e.shared

theorem Alike.refl (e : Engine σ) : Alike e e := ⟨rfl, rfl⟩

theorem Alike.trans {e'' : Engine σ} (h : Alike e e') (h' : Alike e' e'') : Alike e e'' :=
  ⟨h'.processors.trans h.processors, h'.shared.trans h.shared⟩

theorem Alike.crew? (h : Alike e e') (id : ProcessorId) : e'.crew? id = e.crew? id := by
  rw [Engine.crew?, Engine.crew?, processor?, processor?, h.processors]

theorem Alike.total (h : Alike e e') (f : Worker → Nat) : e'.total f = e.total f := by
  rw [Engine.total, Engine.total, h.processors]

theorem alike_wake (e : Engine σ) (w : WorkerId) : Alike e (e.wake w) := by
  rw [wake]
  split <;> exact ⟨rfl, rfl⟩

theorem alike_wakeIfWaiting (e : Engine σ) (w : WorkerId) : Alike e (e.wakeIfWaiting w) := by
  rw [wakeIfWaiting]
  split
  · split
    · exact alike_wake e w
    · exact .refl e
  · exact .refl e

theorem alike_foldl {f : Engine σ → WorkerId → Engine σ} (hf : ∀ e w, Alike e (f e w))
    (ws : List WorkerId) (e : Engine σ) : Alike e (ws.foldl f e) := by
  induction ws generalizing e with
  | nil => exact .refl e
  | cons w ws ih => exact (hf e w).trans (ih (f e w))

/-! ## Messages -/

/-- A message that is taken is in the mailbox of a worker. -/
theorem place_of_deliver {m : Message} {serial : Nat}
    (hd : e.deliver id serial i m = .taken e') :
    ∃ c worker, e.crew? id = some c ∧ c.workers[i]? = some worker ∧
      worker.mailbox.isOpen = true ∧ Alike
        (e.place ⟨id, i⟩ (fun s => s) { worker with mailbox := worker.mailbox.push m } e.shared)
        e' := by
  rw [deliver] at hd
  split at hd
  · cases hd
  · next c hc =>
    split at hd
    · cases hd
    · next worker hw =>
      split at hd
      · cases hd
      · next hserial =>
        split at hd
        · cases hd
        · cases hd
          refine ⟨c, worker, hc, hw, ?_, alike_wakeIfWaiting _ _⟩
          by_contra hopen
          exact hserial (.inr (by simpa using hopen))

theorem told?_deliver {m : Message} {serial : Nat}
    (hd : e.deliver id serial i m = .taken e') (j : ProcessorId) :
    e'.told? j = e.told? j := by
  obtain ⟨c, worker, hc, _, _, halike⟩ := place_of_deliver hd
  rw [told?, halike.crew?]
  exact told?_place (w := ⟨id, i⟩) hc j

/-! ## Starting and stopping -/

/-! Starting and stopping a processor leaves what all share alone. -/

theorem shared_start (e : Engine σ) (id : ProcessorId) : (e.start id).shared = e.shared := by
  rw [start]
  split
  · rfl
  · dsimp only
    split
    · rfl
    · exact (alike_foldl alike_wake _ _).shared

theorem shared_beginStop (e : Engine σ) (id : ProcessorId) : (e.beginStop id).shared = e.shared :=
  (alike_foldl alike_wakeIfWaiting _ (e.modify id Processor.beginStop)).shared

theorem shared_endStop (e : Engine σ) (id : ProcessorId) : (e.endStop id).2.shared = e.shared := by
  rw [endStop]
  split <;> rfl

end Engine

end StatRollup
