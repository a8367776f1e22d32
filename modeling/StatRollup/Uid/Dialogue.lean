import StatRollup.Retry
import StatRollup.Uid.Recent
import StatRollup.Uid.Store
/-!
# Dictionary operations, request by request

A dictionary answers four questions: the identifier of a name, if it has one; the identifier of a
name, creating one if it has none; the name of an identifier; and how many names a store holds.
Each is a dialogue with the store: a `Stage` asks one `Request`, and the answer leads to the next
stage or to the result.  Between two requests other dialogues may talk to the same store, so a
dialogue is data that can be kept and resumed.

A new identifier gets its name before the name is mapped to it, so a mapped identifier always has
a name.  A creator that finds the name mapped to another identifier takes its own name back.
-/
namespace StatRollup.Uid

/-! ## Questions -/

/-- What a dialogue is for. -/
inductive Goal where
  /-- The identifier of a name, if it has one. -/
  | find
  /-- The identifier of a name, created if need be. -/
  | create
  /-- The name of an identifier. -/
  | name
  /-- Remember every mapping, and tell how many there are. -/
  | warm
  deriving DecidableEq, Repr

/-- What a goal is answered with. -/
abbrev Goal.Result : Goal → Type
  | find => Option Uid
  | create => Uid
  | name => String
  | warm => Nat

/-- Where a dialogue stands: which request is next, and what is known so far. -/
inductive Stage : Goal → Type where
  /-- Looking a name up. -/
  | find (name : String) : Stage .find
  /-- First look of a creator. -/
  | look (name : String) : Stage .create
  /-- Second look of a creator, as another may have finished in the meantime. -/
  | lookAgain (name : String) : Stage .create
  /-- Drawing a number. -/
  | draw (name : String) : Stage .create
  /-- Writing the name of the new identifier. -/
  | inscribe (name : String) (candidate : Uid) : Stage .create
  /-- Mapping the name to the new identifier. -/
  | claim (name : String) (candidate : Uid) : Stage .create
  /-- Taking back the name of an identifier that lost the race. -/
  | retract (name : String) (candidate winner : Uid) : Stage .create
  /-- Looking an identifier up. -/
  | nameOf (id : Uid) : Stage .name
  /-- Asking for all mappings. -/
  | listAll : Stage .warm
  deriving Repr

namespace Stage

/-- The request of a stage. -/
abbrev request : {g : Goal} → Stage g → Request
  | _, find name => .idOf name
  | _, look name => .idOf name
  | _, lookAgain name => .idOf name
  | _, draw _ => .advance
  | _, inscribe name candidate => .putName candidate name
  | _, claim name candidate => .claim name candidate
  | _, retract _ candidate _ => .dropName candidate
  | _, nameOf id => .nameOf id
  | _, listAll => .listAll

/-- Whether a transient failure of the request is retried. -/
def retried {g : Goal} : Stage g → Bool
  | listAll => false
  | _ => true

end Stage

/-! ## What a dictionary remembers -/

/-- Recently used mappings, in both directions. -/
structure Memory where
  /-- Identifiers by name. -/
  byName : Recent String Uid
  /-- Names by identifier. -/
  byId : Recent Uid String
  deriving Repr

namespace Memory

/-- Nothing remembered yet. -/
def empty (capacity : Nat) : Memory := ⟨.empty capacity, .empty capacity⟩

/-- Remembers a mapping in both directions. -/
def remember (m : Memory) (name : String) (id : Uid) : Memory :=
  ⟨m.byName.put name id, m.byId.put id name⟩

/-- The remembered identifier of a name. -/
def idOf (m : Memory) (name : String) : Option Uid × Memory :=
  let (found, byName) := m.byName.use name
  (found, { m with byName })

/-- The remembered name of an identifier. -/
def nameOf (m : Memory) (id : Uid) : Option String × Memory :=
  let (found, byId) := m.byId.use id
  (found, { m with byId })

end Memory

/-! ## Steps -/

/-- A dialogue between two requests. -/
structure Dialogue (g : Goal) where
  /-- Where it stands. -/
  stage : Stage g
  /-- Which attempt at the request of the stage is next, counted from 1. -/
  attempt : Nat := 1
  deriving Repr

/-- A dialogue that is over, or its next request. -/
inductive Progress (g : Goal) where
  /-- It is over. -/
  | done (result : Except Fault g.Result)
  /-- It goes on. -/
  | ask (dialogue : Dialogue g)

namespace Dialogue

variable {g : Goal}

/-- Starts looking a name up. -/
def findName (m : Memory) (name : String) : Progress .find × Memory :=
  match m.idOf name with
  | (some id, m) => (.done (.ok (some id)), m)
  | (none, m) => (.ask { stage := .find name }, m)

/-- Starts looking a name up, to create it if need be. -/
def createName (m : Memory) (name : String) : Progress .create × Memory :=
  match m.idOf name with
  | (some id, m) => (.done (.ok id), m)
  | (none, m) => (.ask { stage := .look name }, m)

/-- Looks once more, now that no other caller of this dictionary creates the name. -/
def lookAgain (m : Memory) (name : String) : Progress .create × Memory :=
  match m.idOf name with
  | (some id, m) => (.done (.ok id), m)
  | (none, m) => (.ask { stage := .lookAgain name }, m)

/-- Starts looking an identifier up; the rolled-up one needs no look. -/
def findId (m : Memory) (id : Uid) : Progress .name × Memory :=
  if id.isRolledUp then (.done (.ok rolledUpName), m)
  else
    match m.nameOf id with
    | (some name, m) => (.done (.ok name), m)
    | (none, m) => (.ask { stage := .nameOf id }, m)

/-- Starts remembering every mapping. -/
def warm (m : Memory) : Progress .warm × Memory := (.ask { stage := .listAll }, m)

/-- Makes an identifier of a drawn number, unless the width has no number left. -/
def candidate (width : Nat) (number : UInt64) : Except Fault Uid :=
  if maxIssuable width < number.toNat then
    .error (.exhausted number.toNat (maxIssuable width) width)
  else ofNat width number.toNat

/-- What an answer leads to. -/
def answered (width : Nat) (m : Memory) : (s : Stage g) → s.request.Answer → Progress g × Memory
  | .find name, found =>
    match found with
    | some id => (.done (.ok (some id)), m.remember name id)
    | none => (.done (.ok none), m)
  | .look name, found =>
    match found with
    | some id => (.done (.ok id), m.remember name id)
    | none => lookAgain m name
  | .lookAgain name, found =>
    match found with
    | some id => (.done (.ok id), m.remember name id)
    | none => (.ask { stage := .draw name }, m)
  | .draw name, number =>
    match candidate width number with
    | .ok id => (.ask { stage := .inscribe name id }, m)
    | .error f => (.done (.error f), m)
  | .inscribe name id, _ => (.ask { stage := .claim name id }, m)
  | .claim name id, winner =>
    if winner = id then (.done (.ok winner), m.remember name winner)
    else (.ask { stage := .retract name id winner }, m)
  | .retract name _ winner, _ => (.done (.ok winner), m.remember name winner)
  | .nameOf id, found =>
    match found with
    | some name => (.done (.ok name), m.remember name id)
    | none => (.done (.error (.unnamed id)), m)
  | .listAll, pairs =>
    (.done (.ok pairs.length), pairs.foldl (fun m (name, id) => m.remember name id) m)

/-- What the outcome of a request leads to: the next stage, another attempt, or the end. -/
def resume (policy : RetryPolicy) (width : Nat) (m : Memory) (d : Dialogue g)
    (outcome : Except Fault d.stage.request.Answer) : Progress g × Memory :=
  match outcome with
  | .ok answer => answered width m d.stage answer
  | .error f =>
    if d.stage.retried && policy.retries f.isTransient d.attempt then
      (.ask { d with attempt := d.attempt + 1 }, m)
    else (.done (.error f), m)

end Dialogue

end StatRollup.Uid
