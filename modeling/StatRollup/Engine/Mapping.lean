import StatRollup.Aggregate
import StatRollup.Key.Event
import StatRollup.Statistic.Registry
import StatRollup.Uid.Dictionary
/-!
# From events to keyed aggregates

An event is judged against its definition before any of its names is given an identifier.  Then
its statistic, and every tag and value in the order of the event, are exchanged for identifiers,
and the event becomes one aggregate under every required mask.
-/
namespace StatRollup

namespace Event

/-- The definition under which an event is processed.  Refused are, in this order: an unknown or
disabled statistic, the other kind of reading, a time without representable buckets, and tags
other than the declared ones. -/
def resolve (registry : Registry) (e : Event) : Except Fault Statistic :=
  match registry.get? e.name with
  | none => .error (.unknownStatistic e.name)
  | some s => do
    if !s.enabled then throw (.disabled s.name)
    if e.reading.kind ≠ s.kind then throw (.wrongReading s.name s.kind e.reading.kind)
    if !Interval.supports e.timestamp then throw (.timeOutOfRange e.timestamp.toInt)
    s.checkTags (e.tags.map Tag.name)
    return s

/-- Resolves an event that was routed to the processor of a kind and an interval. -/
def resolveAt (registry : Registry) (kind : Statistic.Kind) (interval : Interval) (e : Event) :
    Except Fault Statistic := do
  let s ← e.resolve registry
  if s.kind ≠ kind ∨ s.precision ≠ interval then
    throw (.misrouted s.name s.kind s.precision kind interval)
  return s

end Event

variable {σ : Type} [Uid.Store σ]

/-- Exchanges tags for identifiers, in order; each name is followed by its value. -/
def internTags (d : Uid.Dictionary σ) :
    List Tag → Except Fault (List (String × TagValue)) × Uid.Dictionary σ
  | [] => (.ok [], d)
  | t :: ts =>
    match d.getOrCreate t.name with
    | (.error f, d) => (.error f, d)
    | (.ok name, d) =>
      match d.getOrCreate t.value with
      | (.error f, d) => (.error f, d)
      | (.ok value, d) =>
        let (rest, d) := internTags d ts
        (rest.map ((t.name, ⟨name, value⟩) :: ·), d)

/-- The keyed aggregates of a resolved event. -/
def keyedAggregates (d : Uid.Dictionary σ) (cap : Nat) (s : Statistic) (e : Event) :
    Except Fault (List (Key × Aggregate)) × Uid.Dictionary σ :=
  match d.getOrCreate s.name with
  | (.error f, d) => (.error f, d)
  | (.ok statistic, d) =>
    match internTags d e.tags with
    | (.error f, d) => (.error f, d)
    | (.ok tagged, d) =>
      let keys := Key.build s statistic e.timestamp tagged
      (keys.map fun keys => keys.map fun k => (k, Aggregate.ofEvent cap e), d)

/-- The keyed aggregates of an event at the processor of a kind and an interval, with at most
`cap` source identifiers each. -/
def mapEvent (registry : Registry) (d : Uid.Dictionary σ) (cap : Nat) (kind : Statistic.Kind)
    (interval : Interval) (e : Event) :
    Except Fault (List (Key × Aggregate)) × Uid.Dictionary σ :=
  match e.resolveAt registry kind interval with
  | .error f => (.error f, d)
  | .ok s => keyedAggregates d cap s e

end StatRollup
