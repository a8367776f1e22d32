import StatRollup.Proofs.Engine.Diary

/-!
# What a turn of an engine can be

In a turn a worker does something at its bench, or it goes on handing written entries on.
`Engine.turn_cases` says so once for all that is shown of turns.

Handing on goes group by group (`Engine.HandsOn`): the entries are grouped for the partitions of the
next processor, and each group is taken there.  In every other case the worker turns to what follows
a flush, because nothing is left or the next processor does not take it (`Engine.Refuses`).
-/

namespace StatRollup

variable {σ : Type} [Uid.Store σ]

/-- Handing entries on after a flush. -/
inductive Activity.Passing (trigger : Trigger) : Activity → Prop
  | handingOn (entries : List Entry) : Passing trigger (.handingOn trigger entries)
  | sending (serial : Nat) (groups : List (Nat × List Entry)) (count : Nat) :
      Passing trigger (.sending trigger serial groups count)

namespace Activity.Passing

variable {trigger : Trigger} {activity : Activity}

theorem of_handingOn {entries : List Entry} (h : activity = .handingOn trigger entries) :
    activity.Passing trigger := h ▸ .handingOn entries

theorem of_sending {serial count : Nat} {groups : List (Nat × List Entry)}
    (h : activity = .sending trigger serial groups count) : activity.Passing trigger :=
  h ▸ .sending serial groups count

theorem trigger? (h : activity.Passing trigger) : activity.trigger? = some trigger := by
  cases h <;> rfl

theorem unwritten (h : activity.Passing trigger) : activity.unwritten = [] := by cases h <;> rfl

theorem blamed (h : activity.Passing trigger) : activity.blamed = [] := by cases h <;> rfl

theorem ne_died (h : activity.Passing trigger) : activity ≠ .died := ne_died_of_trigger? h.trigger?

end Activity.Passing

/-- Nothing is left to hand on. -/
def Activity.HandedOn : Activity → Prop
  | handingOn _ entries => entries = []
  | sending _ _ groups _ => groups = []
  | _ => True

namespace Engine

variable {e e' : Engine σ} {p : Processor} {c : Crew} {i : Nat} {w : WorkerId} {worker : Worker}
  {trigger : Trigger} {entries : List Entry} {groups : List (Nat × List Entry)}
  {serial count : Nat}

/-! ## Whether the next processor takes anything -/

/-- The crew of a processor that takes messages. -/
def openCrew? (e : Engine σ) (id : ProcessorId) : Option Crew :=
  (e.processor? id).bind Processor.openCrew?

/-- Whoever asks for a processor with its crew is told that there is none. -/
theorem openCrew?_eq_none_iff {e : Engine σ} {id : ProcessorId} : e.openCrew? id = none ↔
    ((e.processor? id).bind fun p => p.openCrew?.map fun c => (p, c)) = none := by
  rw [openCrew?]
  cases e.processor? id with
  | none => simp
  | some p => exact Option.map_eq_none_iff.symm

/-- Whether a processor does not take what a worker is about to hand on: it has no crew that takes
messages, or that crew's mailbox for the next group is closed. -/
def Refuses (e : Engine σ) (j : ProcessorId) : Activity → Prop
  | .handingOn _ _ => e.openCrew? j = none
  | .sending _ serial ((target, group) :: _) _ =>
    ∃ f, e.deliver j serial target (.rollups group) = .refused f
  | _ => False

theorem Refuses.passing {j : ProcessorId} {activity : Activity} (h : e.Refuses j activity) :
    ∃ trigger, activity.Passing trigger := by
  cases activity with
  | handingOn trigger entries => exact ⟨trigger, .handingOn entries⟩
  | sending trigger serial groups count => exact ⟨trigger, .sending serial groups count⟩
  | _ => exact h.elim

/-! ## Handing on -/

/-- What a turn of a worker does that is handing entries on. -/
inductive HandsOn (e : Engine σ) (p : Processor) (i : Nat) (worker : Worker) : Engine σ → Prop
  /-- It turns to what follows the flush, and may count what it has handed on. -/
  | skips {trigger : Trigger} (count : Nat) (passing : worker.activity.Passing trigger)
      (ended : ∀ j, p.forward = some j → worker.activity.HandedOn ∨ e.Refuses j worker.activity) :
      HandsOn e p i worker (e.atBench p i worker fun post b =>
        let forwarded := b.stats.rollupsForwarded + count
        { b with stats := { b.stats with rollupsForwarded := forwarded } }.afterFlush post trigger)
  /-- It groups the entries for the partitions of the next processor. -/
  | groups {trigger : Trigger} {entries : List Entry} {j : ProcessorId} {q : Processor} {c : Crew}
      (passing : worker.activity = .handingOn trigger entries) (forward : p.forward = some j)
      (found : e.processor? j = some q) (crew : q.openCrew? = some c) :
      HandsOn e p i worker (e.atBench p i worker fun _ b =>
        { b with
          worker := { b.worker with
            activity := .sending trigger c.serial
              (q.groupRollups (entries.map (rekey j.interval))) entries.length } })
  /-- The next processor takes a group. -/
  | sends {trigger : Trigger} {serial count target : Nat} {group : List Entry}
      {rest : List (Nat × List Entry)} {j : ProcessorId} {e₁ : Engine σ}
      (passing : worker.activity = .sending trigger serial ((target, group) :: rest) count)
      (forward : p.forward = some j)
      (taken : e.deliver j serial target (.rollups group) = .taken e₁) :
      HandsOn e p i worker (e₁.atBench p i worker fun _ b =>
        { b with
          worker := { b.worker with activity := .sending trigger serial rest count } })

theorem HandsOn.passing (h : e.HandsOn p i worker e') :
    ∃ trigger, worker.activity.Passing trigger := by
  cases h with
  | skips _ hpassing _ => exact ⟨_, hpassing⟩
  | groups hactivity => exact ⟨_, .of_handingOn hactivity⟩
  | sends hactivity => exact ⟨_, .of_sending hactivity⟩

theorem handsOn_beginHandingOn (hactivity : worker.activity = .handingOn trigger entries) :
    e.HandsOn p i worker (e.beginHandingOn p i worker trigger entries) := by
  have hskip
      (hover : ∀ j, p.forward = some j → worker.activity.HandedOn ∨ e.Refuses j worker.activity) :
      e.HandsOn p i worker (e.atBench p i worker fun post b => b.afterFlush post trigger) :=
    .skips 0 (.of_handingOn hactivity) hover
  rw [hactivity] at hskip
  rw [beginHandingOn]
  split
  · next hforward => exact hskip fun j hj => absurd (hforward.symm.trans hj) (by simp)
  · next j hforward =>
    split
    · exact hskip fun _ _ => .inl rfl
    · next hclosed =>
      refine hskip fun j' hj' => .inr ?_
      cases hforward.symm.trans hj'
      exact openCrew?_eq_none_iff.2 hclosed
    · next q c _ hfound =>
      obtain ⟨q', hq, hopen⟩ := Option.bind_eq_some_iff.1 hfound
      obtain ⟨c', hc, heq⟩ := Option.map_eq_some_iff.1 hopen
      cases heq
      exact .groups hactivity hforward hq hc

theorem handsOn_sendNext (hactivity : worker.activity = .sending trigger serial groups count)
    (hs : e.sendNext p i worker trigger serial count groups = some e') :
    e.HandsOn p i worker e' := by
  have hskip (n : Nat) := HandsOn.skips (e := e) (p := p) (i := i) n (.of_sending hactivity)
  rw [hactivity] at hskip
  cases groups with
  | nil =>
    cases hs
    exact hskip count fun _ _ => .inl rfl
  | cons g rest =>
    obtain ⟨target, group⟩ := g
    rw [sendNext] at hs
    split at hs
    · next hforward =>
      cases hs
      exact hskip 0 fun j hj => absurd (hforward.symm.trans hj) (by simp)
    · next j hforward =>
      split at hs
      · cases hs
      · next f hd =>
        cases hs
        refine hskip 0 fun j' hj' => .inr ?_
        cases hforward.symm.trans hj'
        exact ⟨f, hd⟩
      · next e₁ hd =>
        cases hs
        exact .sends hactivity hforward hd

/-! ## Turns -/

/-- What a turn of a worker does. -/
inductive Turns (e : Engine σ) (w : WorkerId) (p : Processor) (c : Crew) (worker : Worker) :
    Engine σ → Prop
  /-- Something at its bench. -/
  | bench {b : Bench σ} (own : ∀ trigger, ¬ worker.activity.Passing trigger)
      (turned : (Bench.mk e.shared p.stats worker).turn (p.post w.partition) c.isStopping =
        some b) :
      Turns e w p c worker (e.atBench p w.partition worker fun _ _ => b)
  /-- It goes on handing entries on. -/
  | passing {e' : Engine σ} : e.HandsOn p w.partition worker e' → Turns e w p c worker e'

theorem worker?_eq (hcrew : p.crew = some c) : p.worker? i = c.workers[i]? := by
  rw [Processor.worker?, hcrew, Option.bind_some]

theorem turn_cases (h : e.turn w = some e') :
    ∃ p c worker, e.processor? w.processor = some p ∧ p.crew = some c ∧
      c.workers[w.partition]? = some worker ∧ e.Turns w p c worker e' := by
  rw [turn] at h
  split at h
  · cases h
  · next p hp =>
    split at h
    · next c worker hcrew hworker =>
      refine ⟨p, c, worker, hp, hcrew, (worker?_eq hcrew).symm.trans hworker, ?_⟩
      split at h
      · next trigger entries hactivity =>
        cases h
        exact .passing (handsOn_beginHandingOn hactivity)
      · next trigger serial groups count hactivity =>
        exact .passing (handsOn_sendNext hactivity h)
      · next hhands hsends =>
        obtain ⟨b, hb, rfl⟩ := Option.map_eq_some_iff.1 h
        refine .bench (fun trigger hpassing => ?_) hb
        generalize worker.activity = activity at hpassing hhands hsends
        cases hpassing with
        | handingOn entries => exact hhands _ _ rfl
        | sending serial groups count => exact hsends _ _ _ _ rfl
    · cases h

end Engine

end StatRollup
