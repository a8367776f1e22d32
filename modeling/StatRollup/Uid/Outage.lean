import StatRollup.Uid.Store
/-!
# A store with outages

A store that fails requests on demand and keeps a log of all of them.  An outage names a kind of
request and the kind of fault it is to fail with, and lasts for a number of requests.  A failed
request changes nothing.  While the store is stale it denies knowing any name.
-/
namespace StatRollup.Uid

/-- Requests that are to fail. -/
structure Outage where
  /-- Which requests. -/
  verb : Request.Verb
  /-- How they fail. -/
  kind : FaultKind
  /-- How many more are to fail. -/
  times : Nat
  deriving DecidableEq, Repr

/-- A store behind a faulty line. -/
structure Unsteady (σ : Type) where
  /-- The store. -/
  store : σ
  /-- What is to fail; the first entry that applies is used. -/
  outages : List Outage := []
  /-- Whether lookups of names are answered from before anything was mapped. -/
  stale : Bool := false
  /-- Every request made, latest first. -/
  log : List Request := []

namespace Unsteady

variable {σ : Type} [Store σ]

/-- Uses up one failure of the first outage of a kind of request. -/
def takeOutage (verb : Request.Verb) : List Outage → Option (FaultKind × List Outage)
  | [] => none
  | o :: os =>
    if o.verb = verb ∧ 0 < o.times then some (o.kind, { o with times := o.times - 1 } :: os)
    else (takeOutage verb os).map fun (kind, os) => (kind, o :: os)

/-- Answers a request that does not fail. -/
def answer (u : Unsteady σ) (r : Request) : Except Fault r.Answer × Unsteady σ :=
  let (outcome, store) := Store.perform u.store r
  let u := { u with store }
  match r with
  | .idOf _ => (if u.stale then .ok none else outcome, u)
  | _ => (outcome, u)

/-- Logs a request, and fails or answers it. -/
def perform (u : Unsteady σ) (r : Request) : Except Fault r.Answer × Unsteady σ :=
  let u := { u with log := r :: u.log }
  match takeOutage r.verb u.outages with
  | some (kind, outages) => (.error (.about r.subject kind), { u with outages })
  | none => u.answer r

instance : Store (Unsteady σ) where
  width u := Store.width u.store
  perform := perform

end Unsteady

end StatRollup.Uid
