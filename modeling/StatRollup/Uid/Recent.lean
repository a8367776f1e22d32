/-!
# Recently used entries

A bounded table that forgets the entry whose last use is longest ago.  Both a hit and an
insertion make an entry the most recent.  Entries are listed most recent first.
-/
namespace StatRollup

/-- At most `capacity` entries, the most recently used first; a capacity of zero counts as one. -/
structure Recent (κ ν : Type) where
  /-- The most entries to keep. -/
  capacity : Nat
  /-- The entries, most recent first. -/
  entries : List (κ × ν) := []
  deriving Repr

namespace Recent

variable {κ ν : Type} [DecidableEq κ]

/-- No entries. -/
def empty (capacity : Nat) : Recent κ ν := { capacity := max capacity 1 }

/-- Number of entries. -/
def size (r : Recent κ ν) : Nat := r.entries.length

/-- The value of a key. -/
def find? (r : Recent κ ν) (k : κ) : Option ν := r.entries.lookup k

/-- Makes an entry the most recent, and forgets entries beyond the capacity. -/
def put (r : Recent κ ν) (k : κ) (v : ν) : Recent κ ν :=
  { r with entries := ((k, v) :: r.entries.filter (·.1 ≠ k)).take r.capacity }

/-- The value of a key, which becomes the most recent when it is there. -/
def use (r : Recent κ ν) (k : κ) : Option ν × Recent κ ν :=
  match r.find? k with
  | some v => (some v, r.put k v)
  | none => (none, r)

/-- Every entry of `put` is the new one or an old one. -/
theorem mem_put {r : Recent κ ν} {k : κ} {v : ν} {e : κ × ν} (h : e ∈ (r.put k v).entries) :
    e = (k, v) ∨ e ∈ r.entries := by
  rcases List.mem_cons.1 (List.mem_of_mem_take h) with h | h
  · exact .inl h
  · exact .inr (List.mem_filter.1 h).1

/-- What is found is an entry. -/
theorem mem_of_find? {r : Recent κ ν} {k : κ} {v : ν} (h : r.find? k = some v) :
    (k, v) ∈ r.entries := by
  obtain ⟨before, after, hsplit, _⟩ := List.lookup_eq_some_iff.1 h
  rw [hsplit]
  exact List.mem_append_right _ List.mem_cons_self

/-! ## Examples -/

example : (((((empty 2 : Recent Nat Nat).put 1 10).put 2 20).use 1).2.put 3 30).entries
    = [(3, 30), (1, 10)] := by decide
example : ((empty 0 : Recent Nat Nat).put 1 10).size = 1 := by decide

end Recent

end StatRollup
