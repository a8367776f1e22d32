import StatRollup.Document.Aggregate
import StatRollup.Document.Engine
import StatRollup.Service.MediaType
import StatRollup.Service.Target
/-!
# The service

Requests to a pipeline over HTTP: submitting events, registering statistics, and looking at
definitions, cells, processors and rejected events.  A request is judged by its path, then by its
method, then by the parts of its target, then by its content type and its body, and only then
carried out.
-/
namespace StatRollup.Service

/-! ## Requests and responses -/

/-- A request. -/
structure Request where
  /-- Its method. -/
  method : String
  /-- Its target. -/
  target : String
  /-- The type of its body, if it says one. -/
  contentType : Option String
  /-- The document that its body begins with. -/
  body : Json

/-- What a response carries. -/
inductive Body where
  /-- Nothing. -/
  | empty
  /-- A plain text. -/
  | text (s : String)
  /-- A document. -/
  | document (j : Json)

/-- A response. -/
structure Response where
  /-- Its status code. -/
  status : Nat
  /-- What it carries. -/
  body : Body := .empty

namespace Response

/-- A response with a document. -/
def of (status : Nat) (document : Json) : Response := { status, body := .document document }

/-- A response with an error text. -/
def error (status : Nat) (text : String) : Response := of status (.recordOf [("error", .text text)])

/-- The response to a fault: the request is to blame for bad data and bad definitions, and a
processor that does not take messages is a passing state. -/
def ofFault (f : Fault) : Response :=
  let status :=
    if f.isData ∨ f.kind = .configuration then 400
    else if f.kind = .transport then 503
    else 500
  error status f.message

/-- The response to a document that is not accepted. -/
def ofRefusal : Json.Refusal → Response
  | .malformed => { status := 400 }
  | .mismatch | .invalid _ => { status := 422 }

/-- The response to a name that is not registered. -/
def unknown (name : String) : Response := error 404 s!"Unknown statistic: {name}"

end Response

/-! ## Routes -/

/-- What a path leads to. -/
inductive Route where
  /-- Whether the pipeline runs. -/
  | health
  /-- Whether the service answers. -/
  | ping
  /-- Submitting events. -/
  | events
  /-- All definitions. -/
  | statistics
  /-- A definition, by its name as written in the path. -/
  | statistic (part : String)
  /-- The cells of a statistic. -/
  | cells (part : String)
  /-- All processors. -/
  | processors
  /-- Sizes of the stores. -/
  | stats
  /-- Rejected events. -/
  | badEvents
  deriving DecidableEq, Repr

/-- Finds the route of a path.  A name may be empty unless it ends the path. -/
def Route.ofPath? : List String → Option Route
  | ["health"] => some health
  | ["ping"] => some ping
  | ["events"] => some events
  | ["statistics"] => some statistics
  | ["statistics", part] => if part = "" then none else some (statistic part)
  | ["statistics", part, "cells"] => some (cells part)
  | ["processors"] => some processors
  | ["stats"] => some stats
  | ["bad-events"] => some badEvents
  | _ => none

/-- Whether a route has something to show. -/
def Route.isReadable : Route → Bool
  | events => false
  | _ => true

/-- Whether documents can be sent to a route. -/
def Route.isWritable : Route → Bool
  | events | statistics => true
  | _ => false

/-! ## Documents -/

/-- The version that the service reports. -/
def version : String := "0.1.0"

/-- The document of a processor. -/
def processorToJson (p : Processor) : Json :=
  .recordOf [("id", .text p.id.name), ("statistic_type", p.id.kind.toJson),
    ("interval", p.id.interval.toJson), ("state", .text p.state.tagName),
    ("stats", p.stats.toJson)]

/-! ## Showing -/

/-- Tags by name. -/
def namedTags (d : Uid.Dictionary Uid.Tables) (named : List (String × Json)) :
    List TagValue → Except Fault (List (String × Json)) × Uid.Dictionary Uid.Tables
  | [] => (.ok named, d)
  | t :: ts =>
    match d.getName t.tag with
    | (.error f, d) => (.error f, d)
    | (.ok tag, d) =>
      match d.getName t.value with
      | (.error f, d) => (.error f, d)
      | (.ok value, d) => namedTags d (Json.place tag (.text value) named) ts

/-- Cells with names in place of identifiers. -/
def cellsToJson (d : Uid.Dictionary Uid.Tables) :
    List (Key × Aggregate) → Except Fault (List Json) × Uid.Dictionary Uid.Tables
  | [] => (.ok [], d)
  | (k, a) :: cells =>
    match namedTags d [] k.tags with
    | (.error f, d) => (.error f, d)
    | (.ok tags, d) =>
      let cell := Json.recordOf [("interval", k.interval.toJson),
        ("time", .int k.columnTime.toInt), ("tags", .recordOf tags),
        ("aggregate", a.toJson Json.finite)]
      let (rest, d) := cellsToJson d cells
      (rest.map (cell :: ·), d)

/-- The cells of a mask that are stored for a statistic; none when it has no identifier yet. -/
def cellsOf (e : Engine) (name : String) (bits : Nat) :
    Except Fault (List Json) × Uid.Dictionary Uid.Tables :=
  match e.shared.dictionary.get name with
  | (.error f, d) => (.error f, d)
  | (.ok none, d) => (.ok [], d)
  | (.ok (some statistic), d) =>
    let scanned := (Mask.ofBits bits).bind fun mask => e.shared.store.cells.scan statistic mask
    match scanned with
    | .error f => (.error f, d)
    | .ok cells => cellsToJson d cells

/-- The mask bits that a query asks for, zero when it does not. -/
def maskBits? (t : Target) : Option Nat :=
  match t.valuesOf "mask" with
  | [] => some 0
  | [value] => numberBelow? (2 ^ 16) value
  | _ => none

/-- Shows the cells of a statistic. -/
def showCells (e : Engine) (t : Target) (part : String) : Response × Engine :=
  match plainPart? part, maskBits? t with
  | some name, some bits =>
    if (e.shared.registry.get? name).isNone then (.unknown name, e)
    else
      let (cells, dictionary) := cellsOf e name bits
      let e := { e with shared := { e.shared with dictionary } }
      match cells with
      | .ok cells => (.of 200 (.listOf cells), e)
      | .error f => (.ofFault f, e)
  | _, _ => ({ status := 400 }, e)

/-- Shows a definition. -/
def showStatistic (registry : Registry) (part : String) : Response :=
  match plainPart? part with
  | none => { status := 400 }
  | some name =>
    match registry.get? name with
    | some s => .of 200 s.toJson
    | none => .unknown name

/-- Whether the pipeline runs, and how many processors it has. -/
def showHealth (e : Engine) : Response :=
  .of (if e.isHealthy then 200 else 503) <|
    .recordOf [("status", .text (if e.isHealthy then "ok" else "degraded")),
      ("version", .text version), ("processors", .nat e.processors.length)]

/-- Sizes of the stores. -/
def showStats (e : Engine) : Response :=
  .of 200 <| .recordOf [("statistics", .nat e.shared.registry.size),
    ("cells", .nat e.shared.store.cells.size), ("merges", .nat e.shared.store.cells.merges),
    ("dictionary_cache", .nat e.shared.dictionary.remembered),
    ("bad_events", .nat e.shared.badEvents.size)]

/-- What a route shows. -/
def view (e : Engine) (t : Target) : Route → Response × Engine
  | .health => (showHealth e, e)
  | .ping => ({ status := 200, body := .text "pong" }, e)
  | .statistics => (.of 200 (.listOf (e.shared.registry.names.map .text)), e)
  | .statistic part => (showStatistic e.shared.registry part, e)
  | .cells part => showCells e t part
  | .processors => (.of 200 (.listOf (e.processors.map processorToJson)), e)
  | .stats => (showStats e, e)
  | .badEvents =>
    (.of 200 (.listOf (e.shared.badEvents.events.map fun b => b.toJson Json.finite)), e)
  | .events => ({ status := 405 }, e)

/-! ## Accepting -/

/-- Accepts events. -/
def acceptEvents (e : Engine) (body : Json) : Response × Engine :=
  match Json.asList (Event.ofJson Json.asFloat) body with
  | .error refusal => (.ofRefusal refusal, e)
  | .ok events =>
    match e.submit events with
    | (.ok report, e) => (.of 202 (report.toJson), e)
    | (.error f, e) => (.ofFault f, e)

/-- Accepts a definition. -/
def acceptStatistic (e : Engine) (body : Json) : Response × Engine :=
  match Statistic.ofJson body with
  | .error refusal => (.ofRefusal refusal, e)
  | .ok s =>
    let (result, registry) := e.shared.registry.registerInPlace s
    let e := { e with shared := { e.shared with registry } }
    match result with
    | .ok () => (.of 201 s.toJson, e)
    | .error f => (.ofFault f, e)

/-- What becomes of a document sent to a route. -/
def accept (e : Engine) (r : Request) (route : Route) : Response × Engine :=
  if !r.contentType.any saysJson then ({ status := 415 }, e)
  else
    match route with
    | .events => acceptEvents e r.body
    | .statistics => acceptStatistic e r.body
    | _ => ({ status := 405 }, e)

/-! ## Answering -/

/-- Answers a request.  Any request for options is fine, and one for the head of a response is
answered like one for the whole, without its body. -/
def answer (e : Engine) (r : Request) : Response × Engine :=
  let target := Target.ofText r.target
  if r.method = "OPTIONS" then ({ status := 200 }, e)
  else
    match Route.ofPath? target.path with
    | none => ({ status := 404 }, e)
    | some route =>
      if r.method = "GET" ∧ route.isReadable then view e target route
      else if r.method = "HEAD" ∧ route.isReadable then
        let (response, e) := view e target route
        ({ response with body := .empty }, e)
      else if r.method = "POST" ∧ route.isWritable then accept e r route
      else ({ status := 405 }, e)

end StatRollup.Service
