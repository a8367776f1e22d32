import StatRollup.Json.Decode
import StatRollup.Traffic.BadEvents
/-!
# Events as documents

An event is written with its name, timestamp, tags, value and source identifiers.  Its value is a
record with the one member `count` or `value`.  How numbers with a fraction are read and written
is left to the caller.
-/
namespace StatRollup

namespace Tag

/-- The fields of a tag. -/
def form : Json.Form Tag :=
  Tag.mk <$> .required "name" Json.asText <*> .required "value" Json.asText

/-- The document of a tag. -/
def toJson (t : Tag) : Json := .recordOf [("name", .text t.name), ("value", .text t.value)]

end Tag

namespace EventId

/-- Reads a part: a number that fits 64 bits, or a text. -/
def part : Json.Decoder IdPart
  | .int n => (Json.asInt64 (.int n)).map IdPart.number
  | .text s => .ok (.text s)
  | j => .error (if j.isReadable then .mismatch else .malformed)

/-- Reads the parts. -/
def ofJson : Json.Decoder EventId := Json.asList part

/-- The document of a part. -/
def partToJson : IdPart → Json
  | .number n => .int n.toInt
  | .text s => .text s

/-- The list of the parts. -/
def toJson (id : EventId) : Json := .listOf (id.map partToJson)

end EventId

/-- The list of identifiers. -/
def idsToJson (ids : List EventId) : Json := .listOf (ids.map EventId.toJson)

namespace Reading

/-- Reads what an event carries. -/
def ofJson (number : Json.Decoder Float) : Json.Decoder Reading :=
  Json.asAlternative fun
    | "count" => some fun j => (Json.asUInt64 j).map count
    | "value" => some fun j => (number j).map value
    | _ => none

/-- The record with the one member. -/
def toJson (number : Float → Json) : Reading → Json
  | count n => .recordOf [("count", .nat n.toNat)]
  | value x => .recordOf [("value", number x)]

end Reading

namespace Event

/-- The fields of an event. -/
def form (number : Json.Decoder Float) : Json.Form Event :=
  Event.mk <$> .required "name" Json.asText
    <*> .required "timestamp" Json.asInt64
    <*> .optional "tags" [] (Json.asList Tag.form.read)
    <*> .required "value" (Reading.ofJson number)
    <*> .optional "event_ids" [] (Json.asList EventId.ofJson)

/-- Reads an event. -/
def ofJson (number : Json.Decoder Float) : Json.Decoder Event := (form number).read

/-- The document of an event. -/
def toJson (number : Float → Json) (e : Event) : Json :=
  .recordOf [("name", .text e.name), ("timestamp", .int e.timestamp.toInt),
    ("tags", .listOf (e.tags.map Tag.toJson)), ("value", e.reading.toJson number),
    ("event_ids", idsToJson e.ids)]

end Event

namespace BadEvent

/-- The fields of a rejected event. -/
def form (number : Json.Decoder Float) : Json.Form BadEvent :=
  BadEvent.mk <$> .required "event" (Event.ofJson number)
    <*> .required "reason" Json.asText
    <*> .required "processor" Json.asText

/-- The document of a rejected event. -/
def toJson (number : Float → Json) (b : BadEvent) : Json :=
  .recordOf [("event", b.event.toJson number), ("reason", .text b.reason),
    ("processor", .text b.processor)]

end BadEvent

end StatRollup
