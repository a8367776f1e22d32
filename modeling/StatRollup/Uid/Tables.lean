import Std.Data.TreeMap
import StatRollup.Uid.Store
/-!
# Tables in memory

The plainest store: both tables and the sequence, kept in memory.  It never refuses a request.
Mappings may be listed in any order.
-/
namespace StatRollup.Uid

/-- An order in which mappings are listed. -/
abbrev ListingOrder := { f : List (String × Uid) → List (String × Uid) // ∀ l, (f l).Perm l }

/-- Forward table, reverse table and sequence. -/
structure Tables where
  /-- The width of all identifiers. -/
  width : Nat
  /-- The last number handed out. -/
  sequence : UInt64 := 0
  /-- The identifier of each name. -/
  forward : Std.TreeMap String Uid := {}
  /-- The name of each identifier. -/
  reverse : Std.TreeMap Uid String := {}
  /-- The order in which forward mappings, sorted by name, are listed. -/
  order : ListingOrder := ⟨id, fun _ => .refl _⟩

namespace Tables

/-- Empty tables whose sequence goes on after a given number. -/
def empty (width : Nat) (sequence : UInt64 := 0) : Tables := { width, sequence }

instance : Inhabited Tables := ⟨empty 4⟩

/-- The identifier of a name. -/
def idOf? (t : Tables) (name : String) : Option Uid := t.forward.get? name

/-- The name of an identifier. -/
def nameOf? (t : Tables) (id : Uid) : Option String := t.reverse.get? id

/-- Number of names mapped. -/
def size (t : Tables) : Nat := t.forward.size

/-- Raises the sequence to at least a number. -/
def raise (t : Tables) (n : UInt64) : Tables :=
  { t with sequence := if t.sequence < n then n else t.sequence }

/-- Maps a name unless it is mapped. -/
def mapName (t : Tables) (name : String) (id : Uid) : Tables :=
  { t with forward := t.forward.insertIfNew name id }

/-- Writes the name of an identifier. -/
def putName (t : Tables) (id : Uid) (name : String) : Tables :=
  { t with reverse := t.reverse.insert id name }

/-- Removes the name of an identifier. -/
def dropName (t : Tables) (id : Uid) : Tables := { t with reverse := t.reverse.erase id }

/-- Every forward mapping, in the order of listing. -/
def pairs (t : Tables) : List (String × Uid) := t.order.1 t.forward.toList

/-- Answers a request. -/
def perform (t : Tables) : (r : Request) → r.Answer × Tables
  | .idOf name => (t.idOf? name, t)
  | .nameOf id => (t.nameOf? id, t)
  | .advance => (t.sequence + 1, { t with sequence := t.sequence + 1 })
  | .putName id name => ((), t.putName id name)
  | .dropName id => ((), t.dropName id)
  | .claim name id => ((t.idOf? name).getD id, t.mapName name id)
  | .listAll => (t.pairs, t)

instance : Store Tables where
  width := width
  perform t r := let (answer, t') := t.perform r; (.ok answer, t')

end Tables

end StatRollup.Uid
