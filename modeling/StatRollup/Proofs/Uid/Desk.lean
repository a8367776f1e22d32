import StatRollup.Proofs.Uid.Commons
import StatRollup.Proofs.Uid.Tables

/-!
# What a move can change

Of all that dictionaries and callers hold, the tables depend on little: the identifiers that
creators have drawn and not settled yet, and for each of them whether its name is written.  `Desk`
is that part of the state.  `step_change` says once what one move can do to it, and every later
invariant of the tables is read off from there.
-/

namespace StatRollup.Uid

/-! ## Identifiers in hand -/

/-- An identifier in the hands of a creator, with the name that is written for it, if it is. -/
abbrev Held := Uid × Option String

/-- The identifier that a creator at a stage has in hand.  One that lost the race has its name
written still, but it will not be mapped, so the name does not matter. -/
def Stage.held? : {g : Goal} → Stage g → Option Held
  | _, inscribe _ id => some (id, none)
  | _, claim name id => some (id, some name)
  | _, retract _ id _ => some (id, none)
  | _, _ => none

/-- The identifier that a dialogue has in hand. -/
def Progress.held? {g : Goal} : Progress g → Option Held
  | .ask d => d.stage.held?
  | .done _ => none

/-- The identifier that a caller has in hand. -/
def Call.held? : Call → Option Held
  | .asking d => d.stage.held?
  | .queued _ => none

/-- The tables, and what creators have in hand. -/
structure Desk where
  /-- The tables. -/
  tables : Tables
  /-- What every caller has in hand. -/
  held : Client → Option Held
  /-- How many numbers were drawn. -/
  drawn : Nat

/-- A creation has failed. -/
def Commons.CreationFailed {σ : Type} (s : Commons σ) : Prop :=
  ∃ name f, ⟨.create name, .error f⟩ ∈ s.reports

/-- What the tables depend on. -/
def Commons.desk (s : Commons Tables) : Desk where
  tables := s.store
  held c := (s.call c).bind Call.held?
  drawn := s.drawn

namespace Desk

/-- A caller has something else in hand. -/
def hold (a : Desk) (c : Client) (x : Option Held) : Desk :=
  { a with held := Function.update a.held c x }

/-- The next number is drawn. -/
def advance (a : Desk) : Desk :=
  { a with
    tables := { a.tables with sequence := a.tables.sequence + 1 }
    drawn := a.drawn + 1 }

theorem hold_eq_self {a : Desk} {c : Client} {x : Option Held} (h : a.held c = x) :
    a.hold c x = a := by
  rw [hold, ← h, Function.update_eq_self]

/-- What one move can do; `failed` must hold for a creator to let go of an identifier. -/
inductive Change (failed : Prop) (a : Desk) : Desk → Prop where
  /-- Nothing. -/
  | quiet : Change failed a a
  /-- A creator draws a number and makes an identifier of it. -/
  | draw (c : Client) (u : Uid) :
      a.held c = none → Dialogue.candidate a.tables.width (a.tables.sequence + 1) = .ok u →
      Change failed a (a.advance.hold c (some (u, none)))
  /-- A creator draws a number that cannot be issued. -/
  | waste : Change failed a a.advance
  /-- A creator writes the name of its identifier. -/
  | inscribe (c : Client) (u : Uid) (n : String) :
      a.held c = some (u, none) →
      Change failed a ({ a with tables := a.tables.putName u n }.hold c (some (u, some n)))
  /-- A creator maps its name to its identifier. -/
  | win (c : Client) (u : Uid) (n : String) :
      a.held c = some (u, some n) → (a.tables.idOf? n).getD u = u →
      Change failed a ({ a with tables := a.tables.mapName n u }.hold c none)
  /-- A creator finds its name mapped to another identifier. -/
  | lose (c : Client) (u v : Uid) (n : String) :
      a.held c = some (u, some n) → a.tables.idOf? n = some v → v ≠ u →
      Change failed a (a.hold c (some (u, none)))
  /-- A creator takes the name of its identifier back. -/
  | retract (c : Client) (u : Uid) :
      a.held c = some (u, none) →
      Change failed a ({ a with tables := a.tables.dropName u }.hold c none)
  /-- A creator fails. -/
  | abandon (c : Client) : failed → Change failed a (a.hold c none)

end Desk

namespace Commons

variable {s s' : Commons Tables} {policy : Nat → RetryPolicy} {c : Client} {g : Goal}

/-! ## One move -/

theorem desk_file (q : Question g) (p : Progress g × Memory) :
    (s.file c q p).desk = s.desk.hold c p.1.held? := by
  obtain ⟨p, m⟩ := p
  cases p with
  | ask d =>
    simp only [file, desk, Desk.hold, Desk.mk.injEq, and_true, true_and]
    funext c'
    by_cases hc : c' = c <;> simp [Function.update_apply, hc, Progress.held?, Call.held?]
  | done r =>
    simp only [file, desk, Desk.hold, Desk.mk.injEq, and_true, true_and]
    funext c'
    by_cases hc : c' = c <;> simp [Function.update_apply, hc, Progress.held?]

/-- A failure is reported. -/
theorem creationFailed_file {name : String} {f : Fault} {m : Memory} :
    (s.file c (.create name) (.done (.error f), m)).CreationFailed :=
  ⟨name, f, List.mem_cons_self⟩

/-- Filing for a caller that keeps what it has in hand. -/
theorem change_of_same {q : Question g} {p : Progress g × Memory} {x : Option Held}
    {failed : Prop} (hc : s.desk.held c = x) (hp : p.1.held? = x) :
    Desk.Change failed s.desk (s.file c q p).desk := by
  rw [desk_file, hp, Desk.hold_eq_self hc]
  exact .quiet

theorem held?_begin (m : Memory) (q : Question g) : (q.begin m).1.held? = none := by
  cases q with
  | find name =>
    rw [Question.begin, Dialogue.findName]
    split <;> rfl
  | create name =>
    rw [Question.begin, Dialogue.createName]
    split <;> rfl
  | nameOf id =>
    rw [Question.begin, Dialogue.findId]
    split
    · rfl
    · split <;> rfl
  | warm => rfl

theorem held?_lookAgain (m : Memory) (name : String) :
    (Dialogue.lookAgain m name).1.held? = none := by
  rw [Dialogue.lookAgain]
  split <;> rfl

theorem desk_held {d : Dialogue g} (h : s.call c = some (.asking d)) :
    s.desk.held c = d.stage.held? := by
  simp [desk, h, Call.held?]

/-- Sending a caller to wait that has nothing in hand. -/
theorem change_of_queued {name : String} {failed : Prop} (hc : s.desk.held c = none) :
    Desk.Change failed s.desk
      ({ s with
        call := Function.update s.call c (some (.queued name)) } : Commons Tables).desk := by
  have h : ({ s with call := Function.update s.call c (some (.queued name)) } : Commons Tables).desk
      = s.desk.hold c none := by
    simp only [desk, Desk.hold, Desk.mk.injEq, and_true, true_and]
    funext c'
    by_cases hc : c' = c <;> simp [hc, Call.held?]
  rw [h, Desk.hold_eq_self hc]
  exact .quiet

/-- A request that fails is tried again, or the dialogue ends. -/
theorem change_of_error {d : Dialogue g} (h : s.call c = some (.asking d)) (f : Fault) :
    Desk.Change (s.resume policy c d (.error f)).CreationFailed s.desk
      (s.resume policy c d (.error f)).desk := by
  have hheld := desk_held h
  obtain ⟨stage, attempt⟩ := d
  have hwait : stage.waitsFor? (.error f) = none := by cases stage <;> rfl
  rw [resume, hwait, Dialogue.resume]
  by_cases hretry : (stage.retried && (policy c.dictionary).retries f.isTransient attempt) = true
  · rw [if_pos hretry]
    exact change_of_same hheld rfl
  · rw [if_neg hretry]
    cases stage with
    | find | nameOf | listAll => exact change_of_same hheld rfl
    | look | lookAgain | draw | inscribe | claim | retract =>
      rw [desk_file]
      exact .abandon c creationFailed_file

/-- A lookup that the store has fallen behind for. -/
theorem change_of_stale {d : Dialogue g} (h : s.call c = some (.asking d))
    {a : d.stage.request.Answer} (ha : d.stage.staleAnswer? = some a) :
    Desk.Change (s.resume policy c d (.ok a)).CreationFailed s.desk
      (s.resume policy c d (.ok a)).desk := by
  have hheld := desk_held h
  obtain ⟨stage, attempt⟩ := d
  cases stage with
  | find | lookAgain =>
    cases ha
    exact change_of_same hheld rfl
  | look =>
    cases ha
    exact change_of_queued hheld
  | _ => cases ha

/-- A number that is drawn becomes an identifier, unless it cannot be issued. -/
theorem change_of_draw {name : String} {attempt : Nat}
    (h : s.call c = some (.asking ⟨.draw name, attempt⟩)) :
    Desk.Change (s.perform policy c ⟨.draw name, attempt⟩).CreationFailed s.desk
      (s.perform policy c ⟨.draw name, attempt⟩).desk := by
  let number := s.store.sequence + 1
  let drawn : Commons Tables :=
    { s with store := { s.store with sequence := number }, drawn := s.drawn + 1 }
  have hperform : s.perform policy c ⟨.draw name, attempt⟩ = drawn.file c (.create name)
      (Dialogue.answered s.store.width (s.memory c.dictionary) (.draw name) number) := rfl
  have hdesk : drawn.desk = s.desk.advance := rfl
  have hheld : s.desk.advance.held c = none := desk_held h
  rw [hperform, desk_file, hdesk]
  cases hu : Dialogue.candidate s.store.width number with
  | ok u =>
    simp only [Dialogue.answered, hu, Progress.held?, Stage.held?]
    exact .draw c u hheld hu
  | error f =>
    simp only [Dialogue.answered, hu, Progress.held?]
    rw [Desk.hold_eq_self hheld]
    exact .waste

/-- Claiming a name is where racing creators meet. -/
theorem change_of_claim {name : String} {id : Uid} {attempt : Nat}
    (h : s.call c = some (.asking ⟨.claim name id, attempt⟩)) :
    Desk.Change (s.perform policy c ⟨.claim name id, attempt⟩).CreationFailed s.desk
      (s.perform policy c ⟨.claim name id, attempt⟩).desk := by
  let winner := (s.store.idOf? name).getD id
  let claimed : Commons Tables := { s with store := s.store.mapName name id }
  have hperform : s.perform policy c ⟨.claim name id, attempt⟩ = claimed.file c (.create name)
      (Dialogue.answered s.store.width (s.memory c.dictionary) (.claim name id) winner) := rfl
  have hdesk : claimed.desk = { s.desk with tables := s.store.mapName name id } := rfl
  have hheld : s.desk.held c = some (id, some name) := desk_held h
  rw [hperform, desk_file, hdesk]
  by_cases hwinner : winner = id
  · simp only [Dialogue.answered, if_pos hwinner, Progress.held?]
    exact .win c id name hheld hwinner
  · simp only [Dialogue.answered, if_neg hwinner, Progress.held?, Stage.held?]
    cases hmapped : s.store.idOf? name with
    | none => exact absurd (by simp only [winner, hmapped, Option.getD_none]) hwinner
    | some v =>
      rw [Tables.mapName_of_mapped hmapped]
      refine .lose c id v name hheld hmapped ?_
      rintro rfl
      exact hwinner (by simp only [winner, hmapped, Option.getD_some])

/-- A request that is answered. -/
theorem change_of_perform {d : Dialogue g} (h : s.call c = some (.asking d)) :
    Desk.Change (s.perform policy c d).CreationFailed s.desk (s.perform policy c d).desk := by
  have hheld := desk_held h
  obtain ⟨stage, attempt⟩ := d
  cases stage with
  | find name =>
    refine change_of_same hheld ?_
    simp only [Dialogue.resume, Dialogue.answered]
    split <;> rfl
  | look name =>
    cases hfound : s.store.idOf? name with
    | none =>
      have hperform : s.perform policy c ⟨.look name, attempt⟩
          = { s with call := Function.update s.call c (some (.queued name)) } := by
        have hwait : (Stage.look name).waitsFor? (.ok (s.store.idOf? name)) = some name := by
          rw [hfound]; rfl
        show resume policy s c ⟨.look name, attempt⟩ (.ok (s.store.idOf? name)) = _
        rw [resume, hwait]
      rw [hperform]
      exact change_of_queued hheld
    | some u =>
      have hperform : s.perform policy c ⟨.look name, attempt⟩ = s.file c (.create name)
          (.done (.ok u), (s.memory c.dictionary).remember name u) := by
        show resume policy s c ⟨.look name, attempt⟩ (.ok (s.store.idOf? name)) = _
        rw [hfound]; rfl
      rw [hperform]
      exact change_of_same hheld rfl
  | lookAgain name =>
    refine change_of_same hheld ?_
    simp only [Dialogue.resume, Dialogue.answered]
    split <;> rfl
  | draw name => exact change_of_draw h
  | inscribe name id =>
    have hperform : (s.perform policy c ⟨.inscribe name id, attempt⟩).desk
        = { s.desk with tables := s.store.putName id name }.hold c (some (id, some name)) :=
      desk_file _ _
    rw [hperform]
    exact .inscribe c id name hheld
  | claim name id => exact change_of_claim h
  | retract name id winner =>
    have hperform : (s.perform policy c ⟨.retract name id winner, attempt⟩).desk
        = { s.desk with tables := s.store.dropName id }.hold c none :=
      desk_file _ _
    rw [hperform]
    exact .retract c id hheld
  | nameOf id =>
    refine change_of_same hheld ?_
    simp only [Dialogue.resume, Dialogue.answered]
    split <;> rfl
  | listAll => exact change_of_same hheld rfl

/-- Every move changes the tables, and what is in hand, in one of eight ways. -/
theorem step_change {m : Move} (h : s.step policy m = some s') :
    Desk.Change s'.CreationFailed s.desk s'.desk := by
  cases step_cases h with
  | ask q hcall => exact change_of_same (by simp [desk, hcall]) (held?_begin _ q)
  | perform d hcall => exact change_of_perform hcall
  | fail d f hcall => exact change_of_error hcall f
  | stale d a hcall ha => exact change_of_stale hcall ha
  | wake name hcall =>
    exact change_of_same (by simp [desk, hcall, Call.held?]) (held?_lookAgain _ name)

end Commons

end StatRollup.Uid
