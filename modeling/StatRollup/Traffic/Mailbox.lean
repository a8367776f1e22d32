import StatRollup.Fault
/-!
# Mailboxes

A mailbox is a bounded queue with one receiver.  A message is taken, or it has to wait because the
mailbox is full, or it is refused because the receiver has closed the mailbox.
-/
namespace StatRollup

/-- What becomes of a message. -/
inductive Posting (σ : Type) where
  /-- It is in. -/
  | taken (state : σ)
  /-- There is no room for it yet. -/
  | waits
  /-- It cannot be delivered. -/
  | refused (fault : Fault)

/-- A bounded queue of messages, oldest first. -/
structure Mailbox (α : Type) where
  /-- The most messages it holds. -/
  capacity : Nat
  /-- The messages, oldest first. -/
  queue : List α := []
  /-- Whether messages are taken. -/
  isOpen : Bool := true
  deriving Repr

namespace Mailbox

variable {α : Type}

/-- An open, empty mailbox; a capacity of zero counts as one. -/
def empty (capacity : Nat) : Mailbox α := { capacity := max capacity 1 }

/-- Whether there is no room. -/
def isFull (m : Mailbox α) : Bool := decide (m.capacity ≤ m.queue.length)

/-- Adds a message without asking for room. -/
def push (m : Mailbox α) (message : α) : Mailbox α := { m with queue := m.queue ++ [message] }

/-- Takes no more messages; those inside stay. -/
def close (m : Mailbox α) : Mailbox α := { m with isOpen := false }

/-- Takes no more messages and loses those inside. -/
def abandon (m : Mailbox α) : Mailbox α := { m with isOpen := false, queue := [] }

end Mailbox

/-! ## One mailbox per partition -/

/-- The mailboxes of all partitions. -/
structure Switchboard (α : Type) where
  /-- One mailbox per partition. -/
  mailboxes : List (Mailbox α)
  deriving Repr

namespace Switchboard

variable {α : Type}

/-- Open mailboxes; zero partitions count as one. -/
def empty (partitions capacity : Nat) : Switchboard α :=
  ⟨List.replicate (max partitions 1) (.empty capacity)⟩

/-- Number of partitions. -/
def count (s : Switchboard α) : Nat := s.mailboxes.length

/-- Delivers a message to a partition. -/
def post (s : Switchboard α) (partition : Nat) (message : α) : Posting (Switchboard α) :=
  match s.mailboxes[partition]? with
  | none => .refused (.partitionRange partition s.count)
  | some m =>
    if !m.isOpen then .refused (.partitionClosed partition)
    else if m.isFull then .waits
    else .taken ⟨s.mailboxes.set partition (m.push message)⟩

/-- Takes the oldest message of a partition, if there is one. -/
def receive (s : Switchboard α) (partition : Nat) : Option α × Switchboard α :=
  match s.mailboxes[partition]? with
  | some m =>
    match m.queue with
    | message :: queue => (some message, ⟨s.mailboxes.set partition { m with queue }⟩)
    | [] => (none, s)
  | none => (none, s)

/-- Drops the receiver of a partition. -/
def drop (s : Switchboard α) (partition : Nat) : Switchboard α :=
  ⟨s.mailboxes.modify partition Mailbox.abandon⟩

end Switchboard

end StatRollup
