import StatRollup.Proofs.Uid.Tables
import StatRollup.Uid.Dictionary
import StatRollup.Uid.Outage

/-!
# Stores that may fail

A store over tables answers a request as the tables do, or fails.  After a failure nobody knows
whether the request was carried out (`Tables.Outcome`).  A store that has fallen behind denies that
a name is mapped.

Tables in memory are such a store, and so is a store with outages before it.
-/

namespace StatRollup.Uid

/-- What may come of a request to tables, and the tables after it. -/
inductive Tables.Outcome (t : Tables) :
    (r : Request) → Except Fault r.Answer → Tables → Prop where
  /-- It is answered. -/
  | answered (r : Request) : Outcome t r (.ok (t.perform r).1) (t.perform r).2
  /-- It is carried out, but the answer is lost. -/
  | lost (r : Request) (f : Fault) : Outcome t r (.error f) (t.perform r).2
  /-- It is not carried out. -/
  | refused (r : Request) (f : Fault) : Outcome t r (.error f) t
  /-- A name is looked up as though it were not mapped yet. -/
  | behind (name : String) : Outcome t (.idOf name) (.ok none) t

/-- A kind of store over tables that may fail. -/
class Fallible (σ : Type) [Store σ] where
  /-- The tables. -/
  tables : σ → Tables
  /-- What comes of a request. -/
  outcome (store : σ) (r : Request) :
    (tables store).Outcome r (Store.perform store r).1 (tables (Store.perform store r).2)

/-- The tables behind a dictionary. -/
def Dictionary.tables {σ : Type} [Store σ] [Fallible σ] (d : Dictionary σ) : Tables :=
  Fallible.tables d.store

namespace Tables

instance : Fallible Tables where
  tables t := t
  outcome _ r := .answered r

theorem Outcome.same_or_perform {t t' : Tables} {r : Request} {result : Except Fault r.Answer}
    (h : t.Outcome r result t') : t' = t ∨ t' = (t.perform r).2 := by
  cases h with
  | answered | lost => exact .inr rfl
  | refused | behind => exact .inl rfl

end Tables

namespace Unsteady

variable {σ : Type} [Store σ] [Fallible σ]

/-- A request that gets through is answered by the store, or from before the name was mapped. -/
theorem outcome_answer (u : Unsteady σ) (r : Request) :
    (Fallible.tables u.store).Outcome r (u.answer r).1 (Fallible.tables (u.answer r).2.store) := by
  have hstore := Fallible.outcome u.store r
  rw [answer]
  cases r with
  | idOf name =>
    dsimp only
    split
    · have hsame : Fallible.tables (Store.perform u.store (.idOf name)).2 =
          Fallible.tables u.store := hstore.same_or_perform.elim id id
      rw [hsame]
      exact .behind name
    · exact hstore
  | _ => exact hstore

instance : Fallible (Unsteady σ) where
  tables u := Fallible.tables u.store
  outcome u r := by
    show (Fallible.tables u.store).Outcome r (u.perform r).1 (Fallible.tables (u.perform r).2.store)
    rw [perform]
    dsimp only
    split
    · exact .refused r _
    · exact outcome_answer { u with log := r :: u.log } r

end Unsteady

end StatRollup.Uid
