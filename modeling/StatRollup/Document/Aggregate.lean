import StatRollup.Aggregate
import StatRollup.Document.Event
/-!
# Aggregates as documents

The member `type` of an aggregate tells which kind it is and so which other fields it has.  In a
list the type comes first.
-/
namespace StatRollup.Aggregate

/-- The fields of a count aggregate, its type aside. -/
def countForm : Json.Form Aggregate :=
  count <$> .required "count" Json.asUInt64
    <*> .required "event_ids" (Json.asList EventId.ofJson)

/-- The fields of a value aggregate, its type aside. -/
def valueForm (number : Json.Decoder Float) : Json.Form Aggregate :=
  value <$> .required "sum" number
    <*> .required "count" Json.asUInt64
    <*> .required "min" number
    <*> .required "max" number
    <*> .required "event_ids" (Json.asList EventId.ofJson)

/-- Reads an aggregate whose type is known. -/
def ofTyped (number : Json.Decoder Float) (type : String) (rest : Json) :
    Except Json.Refusal Aggregate :=
  match type with
  | "count" => countForm.read rest
  | "value" => (valueForm number).read rest
  | _ => .error .mismatch

/-- Reads an aggregate.  It is read as a whole before its content is looked at. -/
def ofJson (number : Json.Decoder Float) (j : Json) : Except Json.Refusal Aggregate :=
  if !j.isReadable then .error .malformed
  else
    match j with
    | .record members _ =>
      match members.lookup "type" with
      | some (.text type) =>
        ofTyped number type (.recordOf (members.filter fun m => m.1 != "type"))
      | _ => .error .mismatch
    | .list (.text type :: items) _ => ofTyped number type (.listOf items)
    | _ => .error .mismatch

/-- The document of an aggregate. -/
def toJson (number : Float → Json) : Aggregate → Json
  | count n ids =>
    .recordOf [("type", .text "count"), ("count", .nat n.toNat), ("event_ids", idsToJson ids)]
  | value sum n least greatest ids =>
    .recordOf [("type", .text "value"), ("sum", number sum), ("count", .nat n.toNat),
      ("min", number least), ("max", number greatest), ("event_ids", idsToJson ids)]

end StatRollup.Aggregate
