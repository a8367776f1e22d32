import StatRollup.Uid.Dictionary
/-!
# Callers of a dictionary

Several callers ask one dictionary for the identifiers of names at once, each to be created if
need be.  A caller goes on until it has its answer, until it has to let time pass before another
attempt, or until it finds that another caller is creating the same name.  Creators of one name
follow each other in the order in which they came.  While no caller can go on, time passes to the
moment at which one of them can.
-/
namespace StatRollup.Uid

/-- What a caller is doing. -/
inductive Caller.State where
  /-- Nothing yet. -/
  | fresh
  /-- Talking to the store; its next request is due at a time. -/
  | asking (dialogue : Dialogue .create) (due : Nat)
  /-- Waiting for another creator of its name. -/
  | queued
  /-- About to create its name, as no other caller does. -/
  | admitted
  /-- Nothing any more. -/
  | answered (result : Except Fault Uid)

/-- A caller and the name it asks for. -/
structure Caller where
  /-- The name. -/
  name : String
  /-- What it is doing. -/
  state : Caller.State := .fresh

namespace Caller

/-- Whether the caller is creating its name. -/
def isCreating (c : Caller) : Bool :=
  match c.state with
  | .admitted => true
  | .asking ⟨.look _, _⟩ _ => false
  | .asking .. => true
  | _ => false

/-- When a caller goes on by itself. -/
def due? (c : Caller) : Option Nat :=
  match c.state with
  | .asking _ due => some due
  | _ => none

/-- Whether a caller can go on at once. -/
def isReady (c : Caller) : Bool :=
  match c.state with
  | .fresh | .admitted => true
  | _ => false

/-- The answer of a caller that has one. -/
def answer (c : Caller) : Except Fault Uid :=
  match c.state with
  | .answered result => result
  | _ => .error (.reported .cancelled "")

end Caller

/-- Whether an answer tells a creator to begin creating its name. -/
def Stage.begins : (s : Stage .create) → s.request.Answer → Bool
  | .look _, found =>
    match found with
    | some _ => false
    | none => true
  | _, _ => false

/-- A dictionary with its callers. -/
structure Callers (σ : Type) where
  /-- The dictionary. -/
  dictionary : Dictionary σ
  /-- The callers. -/
  callers : List Caller
  /-- Callers that are queued, the first one next. -/
  line : List Nat := []
  /-- Milliseconds since the callers came. -/
  now : Nat := 0

namespace Callers

variable {σ : Type} [Store σ]

/-- Callers that ask for names. -/
def new (dictionary : Dictionary σ) (names : List String) : Callers σ :=
  { dictionary, callers := names.map fun name => { name } }

/-- The caller at an index. -/
def caller? (cs : Callers σ) (i : Nat) : Option Caller := cs.callers[i]?

/-- Changes what a caller is doing. -/
def put (cs : Callers σ) (i : Nat) (state : Caller.State) : Callers σ :=
  { cs with callers := cs.callers.modify i fun c => { c with state } }

/-- Whether some caller is creating a name. -/
def isCreating (cs : Callers σ) (name : String) : Bool :=
  cs.callers.any fun c => c.name == name && c.isCreating

/-- Admits the first queued caller of a name, unless a caller is creating it. -/
def callNext (cs : Callers σ) (name : String) : Callers σ :=
  if cs.isCreating name then cs
  else
    match cs.line.find? fun i => (cs.caller? i).any fun c => c.name == name with
    | some i => { cs.put i .admitted with line := cs.line.erase i }
    | none => cs

/-- Lets a caller of a name go on, with up to `n` requests. -/
def proceed (i : Nat) (name : String) : Nat → Progress .create → Callers σ → Callers σ
  | _, .done result, cs => (cs.put i (.answered result)).callNext name
  | 0, .ask dialogue, cs => cs.put i (.asking dialogue cs.now)
  | n + 1, .ask dialogue, cs =>
    let d := cs.dictionary
    let (outcome, store) := Store.perform d.store dialogue.stage.request
    let begins := match outcome with
      | .ok answer => dialogue.stage.begins answer
      | .error _ => false
    if begins && cs.isCreating name then
      { cs.put i .queued with dictionary := { d with store }, line := cs.line ++ [i] }
    else
      let (progress, memory) := dialogue.resume d.policy d.width d.memory outcome
      let cs := { cs with dictionary := { d with store, memory } }
      match progress with
      | .ask next =>
        let delay := if next.attempt ≤ 1 then 0 else d.policy.longestDelay (next.attempt - 1)
        if 0 < delay then cs.put i (.asking next (cs.now + delay))
        else proceed i name n progress cs
      | progress => proceed i name n progress cs

/-- Lets a caller go on from what it remembers. -/
def proceedFrom (cs : Callers σ) (i : Nat) (name : String)
    (start : Memory → Progress .create × Memory) : Callers σ :=
  let (progress, memory) := start cs.dictionary.memory
  proceed i name cs.dictionary.budget progress
    { cs with dictionary := { cs.dictionary with memory } }

/-- Lets a caller go on if it can. -/
def turn (cs : Callers σ) (i : Nat) : Callers σ :=
  match cs.caller? i with
  | none => cs
  | some c =>
    match c.state with
    | .fresh => cs.proceedFrom i c.name fun m => Dialogue.createName m c.name
    | .admitted => cs.proceedFrom i c.name fun m => Dialogue.lookAgain m c.name
    | .asking dialogue due =>
      if due ≤ cs.now then proceed i c.name cs.dictionary.budget (.ask dialogue) cs else cs
    | _ => cs

/-- Lets every caller go on, in order. -/
def round (cs : Callers σ) : Callers σ := (List.range cs.callers.length).foldl turn cs

/-- Up to a number of rounds, and time in between when no caller can go on. -/
def run : Nat → Callers σ → Callers σ
  | 0, cs => cs
  | fuel + 1, cs =>
    let cs := cs.round
    if cs.callers.any Caller.isReady then run fuel cs
    else
      match (cs.callers.filterMap Caller.due?).min? with
      | some due => run fuel { cs with now := due }
      | none => cs

/-- A number of rounds that is enough: in every round some caller makes a request or is done. -/
def patience (cs : Callers σ) : Nat := cs.callers.length * (cs.dictionary.budget + 2) + 1

end Callers

/-- Identifiers of names for callers that come at once, each created if need be. -/
def Dictionary.getOrCreateAll {σ : Type} [Store σ] (d : Dictionary σ) (names : List String) :
    List (Except Fault Uid) × Dictionary σ :=
  let cs := Callers.new d names
  let cs := cs.run cs.patience
  (cs.callers.map Caller.answer, cs.dictionary)

end StatRollup.Uid
