import StatRollup.Uid.Dialogue
import StatRollup.Uid.Tables
/-!
# The dictionary

A dictionary holds a store and remembers recent mappings.  Mappings never change once written, so
what is remembered is never forgotten for being wrong.  Its operations play their dialogues with
the store from beginning to end.
-/
namespace StatRollup.Uid

/-- Whether a lookup may create. -/
inductive FetchMode where
  /-- Look only. -/
  | find
  /-- Create when the name is new. -/
  | create
  deriving DecidableEq, Repr

/-- A store with a memory before it. -/
structure Dictionary (σ : Type) where
  /-- The store. -/
  store : σ
  /-- Recent mappings. -/
  memory : Memory
  /-- How store requests are retried. -/
  policy : RetryPolicy := {}

namespace Dictionary

variable {σ : Type} [Store σ] {g : Goal}

/-- A dictionary that remembers up to `capacity` mappings in each direction. -/
def new (store : σ) (capacity : Nat) (policy : RetryPolicy := {}) : Dictionary σ :=
  { store, memory := .empty capacity, policy }

/-- The width of identifiers. -/
def width (d : Dictionary σ) : Nat := Store.width d.store

/-- Number of names remembered. -/
def remembered (d : Dictionary σ) : Nat := d.memory.byName.size

/-- One request of a dialogue. -/
def step (d : Dictionary σ) (dialogue : Dialogue g) : Progress g × Dictionary σ :=
  let (outcome, store) := Store.perform d.store dialogue.stage.request
  let (progress, memory) := dialogue.resume d.policy d.width d.memory outcome
  (progress, { d with store, memory })

/-- Up to `n` requests of a dialogue. -/
def play (d : Dictionary σ) : Nat → Progress g → Progress g × Dictionary σ
  | 0, progress => (progress, d)
  | _ + 1, .done result => (.done result, d)
  | n + 1, .ask dialogue =>
    let (progress, d) := d.step dialogue
    d.play n progress

/-- As many requests as a dialogue can make: six, each up to the last attempt. -/
def budget (d : Dictionary σ) : Nat := 6 * max d.policy.maxAttempts 1

/-- Plays a dialogue to its end. -/
def complete (d : Dictionary σ) (start : Progress g × Memory) :
    Except Fault g.Result × Dictionary σ :=
  match ({ d with memory := start.2 } : Dictionary σ).play d.budget start.1 with
  | (.done result, d) => (result, d)
  | (.ask _, d) => (.error (.reported .cancelled ""), d)

/-! ## Operations -/

/-- The identifier of a name, if it has one. -/
def get (d : Dictionary σ) (name : String) : Except Fault (Option Uid) × Dictionary σ :=
  d.complete (Dialogue.findName d.memory name)

/-- The identifier of a name, created if it has none. -/
def getOrCreate (d : Dictionary σ) (name : String) : Except Fault Uid × Dictionary σ :=
  d.complete (Dialogue.createName d.memory name)

/-- Looks up or creates. -/
def resolve (d : Dictionary σ) (mode : FetchMode) (name : String) :
    Except Fault (Option Uid) × Dictionary σ :=
  match mode with
  | .find => d.get name
  | .create => let (result, d) := d.getOrCreate name; (result.map some, d)

/-- The name of an identifier; an identifier without one is a sign of corruption. -/
def getName (d : Dictionary σ) (id : Uid) : Except Fault String × Dictionary σ :=
  d.complete (Dialogue.findId d.memory id)

/-- Remembers every mapping of the store, up to the capacity, and tells how many there are. -/
def warm (d : Dictionary σ) : Except Fault Nat × Dictionary σ := d.complete (Dialogue.warm d.memory)

end Dictionary

end StatRollup.Uid
