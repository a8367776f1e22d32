import StatRollup.Event
import StatRollup.Traffic.Mailbox
/-!
# Rejected events

Events that cannot be processed are kept with the reason.  `BadEvents` keeps the latest of them
up to a capacity; a mailbox without bound hands them on to whoever writes them down.
-/
namespace StatRollup

/-- A rejected event. -/
structure BadEvent where
  /-- The event. -/
  event : Event
  /-- Why it was rejected. -/
  reason : String
  /-- Who rejected it. -/
  processor : String
  deriving Repr, Inhabited

/-- The latest rejected events, oldest first; a capacity of zero counts as one. -/
structure BadEvents where
  /-- The most events to keep. -/
  capacity : Nat
  /-- The events, oldest first. -/
  events : List BadEvent := []
  deriving Repr

namespace BadEvents

/-- No rejected events. -/
def empty (capacity : Nat) : BadEvents := { capacity := max capacity 1 }

instance : Inhabited BadEvents := ⟨empty 1⟩

/-- Number of events kept. -/
def size (b : BadEvents) : Nat := b.events.length

/-- Keeps an event, and forgets the oldest one when there are too many. -/
def add (b : BadEvents) (bad : BadEvent) : BadEvents :=
  { b with
    events := (if b.events.length = b.capacity then b.events.drop 1 else b.events) ++ [bad] }

/-- Keeps events one after another. -/
def addAll (b : BadEvents) (bads : List BadEvent) : BadEvents := bads.foldl add b

/-- Takes all events out. -/
def drain (b : BadEvents) : List BadEvent × BadEvents := (b.events, { b with events := [] })

end BadEvents

/-- Rejected events on their way to a receiver. -/
structure BadEventQueue where
  /-- The events, oldest first. -/
  events : List BadEvent := []
  /-- Whether there is a receiver. -/
  isOpen : Bool := true
  deriving Repr

namespace BadEventQueue

/-- Hands an event over. -/
def send (q : BadEventQueue) (bad : BadEvent) : Except Fault BadEventQueue :=
  if q.isOpen then .ok { q with events := q.events ++ [bad] } else .error .badEventsClosed

/-- Takes the oldest event. -/
def receive (q : BadEventQueue) : Option BadEvent × BadEventQueue :=
  match q.events with
  | bad :: events => (some bad, { q with events })
  | [] => (none, q)

/-- Drops the receiver, and all events with it. -/
def close (_ : BadEventQueue) : BadEventQueue := { events := [], isOpen := false }

end BadEventQueue

end StatRollup
