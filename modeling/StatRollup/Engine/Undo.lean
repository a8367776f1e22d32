import StatRollup.Engine.Flush
import StatRollup.Engine.Window
/-!
# Windows changed in place

A held value is merged into where it lies, so a merge that fails may leave it changed, and adding
several values may change some entries before one of them fails.  `addAllInPlace` therefore logs
what each key held before it was touched, and replays the log backwards when a merge fails.  A key
may occur in the log several times, first without a value and then with one; only the backward
order brings back what it held at the beginning.
-/
namespace StatRollup

/-- A merge into a held value where it lies: whether it succeeded, and what is held afterwards. -/
abbrev MergeInPlace (α : Type) := α → α → Except Fault Unit × α

/-- Merges a pending aggregate into a held one in place.  The source stays. -/
def Pending.mergeFrom (cap : Nat) : MergeInPlace Pending := fun held next =>
  let merged := held.aggregate.mergeFrom cap next.aggregate
  (merged.1, { held with aggregate := merged.2 })

namespace MergeInPlace

variable {α : Type}

/-- The merge as a function whose outcome is the merged value or a fault. -/
def outcome (f : MergeInPlace α) (held a : α) : Except Fault α :=
  (f held a).1.map fun _ => (f held a).2

/-- A merge that fails leaves the held value untouched. -/
def KeepsOnFailure (f : MergeInPlace α) : Prop :=
  ∀ held a e, (f held a).1 = .error e → (f held a).2 = held

end MergeInPlace

namespace Window

variable {κ α : Type} [Ord κ]

/-- Inserts a value, or merges it into the one held for its key in place. -/
def addInPlace (f : MergeInPlace α) (w : Window κ α) (k : κ) (a : α) :
    Except Fault Unit × Window κ α :=
  match w.get? k with
  | none => (.ok (), w.put k a)
  | some held => ((f held a).1, w.put k (f held a).2)

/-- Makes a key hold what it held before. -/
def putBack (w : Window κ α) (k : κ) : Option α → Window κ α
  | some a => w.put k a
  | none => { w with entries := w.entries.erase k }

/-- Puts back what keys held before each of several changes, the latest change first. -/
def restore (w : Window κ α) : List (κ × Option α) → Window κ α
  | [] => w
  | (k, before) :: log => (w.putBack k before).restore log

/-- Adds values one after another.  The log says what keys held before each change, the latest
first; it is replayed when a value does not merge. -/
def addAllLogged (f : MergeInPlace α) (w : Window κ α) (log : List (κ × Option α)) :
    List (κ × α) → Except Fault Unit × Window κ α
  | [] => (.ok (), w)
  | (k, a) :: rest =>
    match w.addInPlace f k a with
    | (.ok (), next) => next.addAllLogged f ((k, w.get? k) :: log) rest
    | (.error e, next) => (.error e, next.restore log)

/-- Adds every value or, when one does not merge, undoes what was added. -/
def addAllInPlace (f : MergeInPlace α) (w : Window κ α) (entries : List (κ × α)) :
    Except Fault Unit × Window κ α :=
  w.addAllLogged f [] entries

end Window

end StatRollup
