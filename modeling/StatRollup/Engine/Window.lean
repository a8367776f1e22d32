import Std.Data.TreeMap
import StatRollup.Fault
/-!
# Windows

A window coalesces values by key until a flush is due: when it holds enough entries, or when
enough time has passed since it was last emptied.
-/
namespace StatRollup

/-- Values held by key. -/
structure Window (κ α : Type) [Ord κ] where
  /-- Entries that make it full; zero counts as one. -/
  minBatch : Nat
  /-- Longest time that it stays open, in milliseconds. -/
  maxInterval : Nat
  /-- When it was last emptied. -/
  openedAt : Nat
  /-- The value held for each key. -/
  entries : Std.TreeMap κ α := {}

namespace Window

variable {κ α : Type} [Ord κ]

/-- An empty window, opened at a time. -/
def empty (minBatch maxInterval now : Nat) : Window κ α :=
  { minBatch := max minBatch 1, maxInterval, openedAt := now }

/-- Number of entries. -/
def size (w : Window κ α) : Nat := w.entries.size

/-- The value held for a key. -/
def get? (w : Window κ α) (k : κ) : Option α := w.entries.get? k

/-- Whether the size threshold is reached. -/
def isFull (w : Window κ α) : Bool := decide (w.minBatch ≤ w.size)

/-- When the time threshold is reached. -/
def deadline (w : Window κ α) : Nat := w.openedAt + w.maxInterval

/-- Whether either threshold is reached. -/
def isDue (w : Window κ α) (now : Nat) : Bool := w.isFull || decide (w.deadline ≤ now)

/-- Holds a value for a key, in place of the one held before. -/
def put (w : Window κ α) (k : κ) (a : α) : Window κ α :=
  { w with entries := w.entries.insert k a }

/-- Inserts a value, or merges it into the one held for its key. -/
def add (merge : α → α → Except Fault α) (w : Window κ α) (k : κ) (a : α) :
    Except Fault (Window κ α) :=
  match w.get? k with
  | none => .ok (w.put k a)
  | some held => (merge held a).map (w.put k)

/-- A value is added when its key holds nothing or a value that it merges into. -/
theorem add_eq_ok {merge : α → α → Except Fault α} {w w' : Window κ α} {k : κ} {a : α} :
    w.add merge k a = .ok w' ↔ (w.get? k = none ∧ w' = w.put k a) ∨
      ∃ held b, w.get? k = some held ∧ merge held a = .ok b ∧ w' = w.put k b := by
  rw [add]
  cases w.get? k with
  | none => simp [eq_comm]
  | some held =>
    show (merge held a).map (w.put k) = _ ↔ _
    cases hmerge : merge held a <;> simp [hmerge, Except.map, eq_comm]

/-- Adds every value or, when one does not merge, none of them. -/
def addAll (merge : α → α → Except Fault α) (w : Window κ α) :
    List (κ × α) → Except Fault (Window κ α)
  | [] => .ok w
  | (k, a) :: rest => do (← w.add merge k a).addAll merge rest

/-- Adds every value that merges, and drops the others. -/
def addEach (merge : α → α → Except Fault α) (w : Window κ α) : List (κ × α) → Window κ α
  | [] => w
  | (k, a) :: rest =>
    match w.add merge k a with
    | .ok w => w.addEach merge rest
    | .error _ => w.addEach merge rest

/-- Drops all entries. -/
def clear (w : Window κ α) : Window κ α := { w with entries := {} }

/-- Empties the window and opens it anew. -/
def drain (w : Window κ α) (now : Nat) : List (κ × α) × Window κ α :=
  (w.entries.toList, { w.clear with openedAt := now })

end Window

end StatRollup
