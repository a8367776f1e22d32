import Mathlib.Data.List.Induction
import Mathlib.Logic.Function.Basic
import StatRollup.Uid.Dictionary

/-!
# Dictionaries over a store in common

Any number of dictionaries, each with any number of callers, share one store.  A run is a list of
*moves*, and every move is one caller's: it asks a question, or the request it is at is answered,
refused, or answered from before the name was mapped, or it goes on after waiting for the other
creators of its name.  Between two moves of a caller any other caller may move, so the runs are
all the ways in which dialogues can interleave request by request.

A creator that does not find its name waits until it is woken.  Nothing here says that one
creator of a name is woken at a time: that would only leave out runs.

`step` is built from `Question.begin`, `Store.perform`, `Dialogue.resume` and
`Dialogue.lookAgain`, the functions that the dictionary itself plays.
-/

namespace StatRollup.Uid

/-! ## Questions and answers -/

/-- What a dictionary is asked.  A lookup that may create is one of the first two. -/
inductive Question : Goal → Type where
  /-- The identifier of a name, if it has one. -/
  | find (name : String) : Question .find
  /-- The identifier of a name, created if need be. -/
  | create (name : String) : Question .create
  /-- The name of an identifier. -/
  | nameOf (id : Uid) : Question .name
  /-- How many names the store holds. -/
  | warm : Question .warm
  deriving Repr

/-- How a question begins: an answer from memory, or a first request. -/
def Question.begin (m : Memory) : {g : Goal} → Question g → Progress g × Memory
  | _, .find name => Dialogue.findName m name
  | _, .create name => Dialogue.createName m name
  | _, .nameOf id => Dialogue.findId m id
  | _, .warm => Dialogue.warm m

namespace Stage

/-- The question that a dialogue at a stage will answer. -/
def question : {g : Goal} → Stage g → Question g
  | _, find name => .find name
  | _, look name => .create name
  | _, lookAgain name => .create name
  | _, draw name => .create name
  | _, inscribe name _ => .create name
  | _, claim name _ => .create name
  | _, retract name _ _ => .create name
  | _, nameOf id => .nameOf id
  | _, listAll => .warm

/-- The name for which an answer sends a creator to wait. -/
def waitsFor? : {g : Goal} → (s : Stage g) → Except Fault s.request.Answer → Option String
  | _, look name, .ok found => if found.isNone then some name else none
  | _, _, _ => none

/-- What a lookup of a name is answered by a store that has fallen behind. -/
def staleAnswer? : {g : Goal} → (s : Stage g) → Option s.request.Answer
  | _, find _ => some none
  | _, look _ => some none
  | _, lookAgain _ => some none
  | _, _ => none

/-- Whether the request of a stage draws a number. -/
def draws {g : Goal} : Stage g → Bool
  | draw _ => true
  | _ => false

end Stage

/-- An answer that a caller was given. -/
structure Report where
  /-- What was asked for. -/
  {goal : Goal}
  /-- What was asked. -/
  question : Question goal
  /-- What was answered. -/
  result : Except Fault goal.Result

/-! ## States -/

/-- A caller of a dictionary. -/
structure Client where
  /-- Which dictionary. -/
  dictionary : Nat
  /-- Tells the callers of a dictionary apart. -/
  number : Nat
  deriving DecidableEq, Repr

/-- What a caller is doing. -/
inductive Call where
  /-- Its next request is due. -/
  | asking {g : Goal} (dialogue : Dialogue g)
  /-- It has not found its name and waits for other creators of it. -/
  | queued (name : String)

/-- Dictionaries and their callers over one store. -/
structure Commons (σ : Type) where
  /-- The store. -/
  store : σ
  /-- What every dictionary remembers. -/
  memory : Nat → Memory
  /-- What every caller is doing, if anything. -/
  call : Client → Option Call := fun _ => none
  /-- The answers given, the latest first. -/
  reports : List Report := []
  /-- How many numbers were drawn. -/
  drawn : Nat := 0

/-- One move of a caller. -/
inductive Move where
  /-- It asks a question. -/
  | ask (c : Client) {g : Goal} (q : Question g)
  /-- Its request is answered. -/
  | perform (c : Client)
  /-- Its request fails and has no effect. -/
  | fail (c : Client) (f : Fault)
  /-- Its lookup is answered as though the name were not mapped. -/
  | stale (c : Client)
  /-- It goes on after waiting. -/
  | wake (c : Client)

namespace Commons

variable {σ : Type} [Store σ] {g : Goal}

/-- Nobody has asked anything yet; every dictionary has a capacity of its own. -/
def new (store : σ) (capacity : Nat → Nat) : Commons σ :=
  { store, memory := fun i => .empty (capacity i) }

/-- Files what a caller has come to: its next request, or its answer. -/
def file (s : Commons σ) (c : Client) (q : Question g) (at_ : Progress g × Memory) : Commons σ :=
  let s := { s with memory := Function.update s.memory c.dictionary at_.2 }
  match at_.1 with
  | .ask d => { s with call := Function.update s.call c (some (.asking d)) }
  | .done r =>
    { s with
      call := Function.update s.call c none
      reports := ⟨q, r⟩ :: s.reports }

/-- Lets a caller go on from the outcome of its request. -/
def resume (policy : Nat → RetryPolicy) (s : Commons σ) (c : Client) (d : Dialogue g)
    (outcome : Except Fault d.stage.request.Answer) : Commons σ :=
  match d.stage.waitsFor? outcome with
  | some name => { s with call := Function.update s.call c (some (.queued name)) }
  | none =>
    s.file c d.stage.question
      (d.resume (policy c.dictionary) (Store.width s.store) (s.memory c.dictionary) outcome)

/-- Answers the request that a caller is at. -/
def perform (policy : Nat → RetryPolicy) (s : Commons σ) (c : Client) (d : Dialogue g) :
    Commons σ :=
  let (outcome, store) := Store.perform s.store d.stage.request
  let drawn := s.drawn + if d.stage.draws then 1 else 0
  { s with store, drawn }.resume policy c d outcome

/-- The state after a move, if the caller can make it. -/
def step (policy : Nat → RetryPolicy) (s : Commons σ) : Move → Option (Commons σ)
  | .ask c q =>
    match s.call c with
    | none => some (s.file c q (q.begin (s.memory c.dictionary)))
    | some _ => none
  | .perform c =>
    match s.call c with
    | some (.asking d) => some (s.perform policy c d)
    | _ => none
  | .fail c f =>
    match s.call c with
    | some (.asking d) => some (s.resume policy c d (.error f))
    | _ => none
  | .stale c =>
    match s.call c with
    | some (.asking d) => d.stage.staleAnswer?.map fun a => s.resume policy c d (.ok a)
    | _ => none
  | .wake c =>
    match s.call c with
    | some (.queued name) =>
      some (s.file c (.create name) (Dialogue.lookAgain (s.memory c.dictionary) name))
    | _ => none

/-- The state after a list of moves. -/
def run (policy : Nat → RetryPolicy) (s : Commons σ) : List Move → Option (Commons σ)
  | [] => some s
  | m :: ms => (s.step policy m).bind fun s' => s'.run policy ms

/-- A caller was answered with the identifier of a name. -/
def Answered (s : Commons σ) (name : String) (id : Uid) : Prop :=
  ⟨.find name, .ok (some id)⟩ ∈ s.reports ∨ ⟨.create name, .ok id⟩ ∈ s.reports

/-! ## Moves -/

/-- The store has answered the request of a dialogue. -/
def asked (s : Commons σ) (d : Dialogue g) : Commons σ :=
  { s with
    store := (Store.perform s.store d.stage.request).2
    drawn := s.drawn + if d.stage.draws then 1 else 0 }

theorem perform_eq (policy : Nat → RetryPolicy) (s : Commons σ) (c : Client) (d : Dialogue g) :
    s.perform policy c d
      = (s.asked d).resume policy c d (Store.perform s.store d.stage.request).1 := rfl

/-- What every move does. -/
inductive Step (policy : Nat → RetryPolicy) (s : Commons σ) : Move → Commons σ → Prop where
  /-- A question begins. -/
  | ask {c : Client} {g : Goal} (q : Question g) :
      s.call c = none → Step policy s (.ask c q) (s.file c q (q.begin (s.memory c.dictionary)))
  /-- A request is answered. -/
  | perform {c : Client} {g : Goal} (d : Dialogue g) :
      s.call c = some (.asking d) → Step policy s (.perform c) (s.perform policy c d)
  /-- A request fails. -/
  | fail {c : Client} {g : Goal} (d : Dialogue g) (f : Fault) :
      s.call c = some (.asking d) → Step policy s (.fail c f) (s.resume policy c d (.error f))
  /-- A lookup is answered from before the name was mapped. -/
  | stale {c : Client} {g : Goal} (d : Dialogue g) (a : d.stage.request.Answer) :
      s.call c = some (.asking d) → d.stage.staleAnswer? = some a →
      Step policy s (.stale c) (s.resume policy c d (.ok a))
  /-- A creator goes on. -/
  | wake {c : Client} (name : String) :
      s.call c = some (.queued name) →
      Step policy s (.wake c)
        (s.file c (.create name) (Dialogue.lookAgain (s.memory c.dictionary) name))

theorem step_cases {policy : Nat → RetryPolicy} {s s' : Commons σ} {m : Move}
    (h : s.step policy m = some s') : Step policy s m s' := by
  cases m with
  | ask c q =>
    simp only [step] at h
    split at h
    · next hcall => cases h; exact .ask q hcall
    · cases h
  | perform c =>
    simp only [step] at h
    split at h
    · next d hcall => cases h; exact .perform d hcall
    · cases h
  | fail c f =>
    simp only [step] at h
    split at h
    · next d hcall => cases h; exact .fail d f hcall
    · cases h
  | stale c =>
    simp only [step] at h
    split at h
    · next d hcall =>
      obtain ⟨a, ha, rfl⟩ := Option.map_eq_some_iff.1 h
      exact .stale d a hcall ha
    · cases h
  | wake c =>
    simp only [step] at h
    split at h
    · next name hcall => cases h; exact .wake name hcall
    · cases h

omit [Store σ] in
@[simp] theorem store_file (s : Commons σ) (c : Client) (q : Question g)
    (p : Progress g × Memory) : (s.file c q p).store = s.store := by
  obtain ⟨p, m⟩ := p
  cases p <;> rfl

@[simp] theorem store_resume (policy : Nat → RetryPolicy) (s : Commons σ) (c : Client)
    (d : Dialogue g) (outcome : Except Fault d.stage.request.Answer) :
    (s.resume policy c d outcome).store = s.store := by
  rw [resume]
  split
  · rfl
  · exact store_file ..

/-! ## Runs -/

theorem run_append {policy : Nat → RetryPolicy} {s s' : Commons σ} {ms ms' : List Move}
    (h : s.run policy (ms ++ ms') = some s') :
    ∃ t, s.run policy ms = some t ∧ t.run policy ms' = some s' := by
  induction ms generalizing s with
  | nil => exact ⟨s, rfl, h⟩
  | cons m ms ih =>
    obtain ⟨t, ht, hrest⟩ := Option.bind_eq_some_iff.1 h
    obtain ⟨u, hu, hlast⟩ := ih hrest
    exact ⟨u, by rw [run, ht]; exact hu, hlast⟩

theorem run_concat {policy : Nat → RetryPolicy} {s s' : Commons σ} {ms : List Move} {m : Move}
    (h : s.run policy (ms ++ [m]) = some s') :
    ∃ t, s.run policy ms = some t ∧ t.step policy m = some s' := by
  obtain ⟨t, ht, hlast⟩ := run_append h
  obtain ⟨t', ht', hnil⟩ := Option.bind_eq_some_iff.1 hlast
  cases hnil
  exact ⟨t, ht, ht'⟩

/-- What holds at first and survives every move holds after every run. -/
theorem run_induction {policy : Nat → RetryPolicy} {s s' : Commons σ} {ms : List Move}
    {P : Commons σ → Prop} (h : s.run policy ms = some s') (first : P s)
    (next : ∀ t m t', t.step policy m = some t' → P t → P t') : P s' := by
  induction ms using List.reverseRecOn generalizing s' with
  | nil => cases h; exact first
  | append_singleton ms m ih =>
    obtain ⟨t, ht, hlast⟩ := run_concat h
    exact next t m s' hlast (ih ht)

/-! ## Answers -/

omit [Store σ] in
theorem reports_file (s : Commons σ) (c : Client) (q : Question g) (p : Progress g × Memory) :
    s.reports ⊆ (s.file c q p).reports := by
  obtain ⟨p, m⟩ := p
  cases p with
  | ask d => exact List.Subset.refl _
  | done r => exact List.subset_cons_self _ _

theorem reports_resume (policy : Nat → RetryPolicy) (s : Commons σ) (c : Client) (d : Dialogue g)
    (outcome : Except Fault d.stage.request.Answer) :
    s.reports ⊆ (s.resume policy c d outcome).reports := by
  rw [resume]
  split
  · exact List.Subset.refl _
  · exact reports_file ..

/-- What was answered stays answered. -/
theorem reports_step {policy : Nat → RetryPolicy} {s s' : Commons σ} {m : Move}
    (h : s.step policy m = some s') : s.reports ⊆ s'.reports := by
  cases step_cases h with
  | ask q hcall => exact reports_file ..
  | perform d hcall => exact reports_resume policy (s.asked d) ..
  | fail d f hcall => exact reports_resume ..
  | stale d a hcall ha => exact reports_resume ..
  | wake name hcall => exact reports_file ..

end Commons

end StatRollup.Uid
