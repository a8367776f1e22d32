import StatRollup.Interval.Basic
import StatRollup.Statistic.Kind
/-!
# Events

A raw event names a statistic, a time, its tags in any order and what it carries, and may list
identifiers of the records it stems from.
-/
namespace StatRollup

/-- A tag of an event. -/
structure Tag where
  /-- Which tag. -/
  name : String
  /-- Its value on this event. -/
  value : String
  deriving DecidableEq, Repr, Inhabited

/-- A part of the identifier of a source record. -/
inductive IdPart where
  /-- A number in 64 bits. -/
  | number (n : Int64)
  /-- A text. -/
  | text (s : String)
  deriving DecidableEq, Repr, Inhabited

/-- The identifier of a source record. -/
abbrev EventId := List IdPart

namespace EventId

/-- A part as text. -/
def partText : IdPart → String
  | .number n => toString n.toInt
  | .text s => s

/-- The parts with colons between them. -/
def text (id : EventId) : String := ":".intercalate (id.map partText)

end EventId

/-- What an event carries. -/
inductive Reading where
  /-- A count. -/
  | count (n : UInt64)
  /-- A measured value. -/
  | value (x : Float)
  deriving Repr, Inhabited

/-- The kind of statistic that a reading belongs to. -/
def Reading.kind : Reading → Statistic.Kind
  | count _ => .count
  | value _ => .value

/-- A raw event. -/
structure Event where
  /-- Name of the statistic. -/
  name : String
  /-- When it happened. -/
  timestamp : Timestamp
  /-- Its tags, in any order. -/
  tags : List Tag := []
  /-- What it carries. -/
  reading : Reading
  /-- The source records it stems from. -/
  ids : List EventId := []
  deriving Repr, Inhabited

end StatRollup
