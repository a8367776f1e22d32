/-!
# Kinds of statistic

The kind of a statistic decides what its events carry and what its cells accumulate.  Its rollup
policy decides under which masks an event is written.
-/
namespace StatRollup

namespace Statistic

/-- What the events of a statistic carry. -/
inductive Kind where
  /-- A count, such as a number of logins. -/
  | count
  /-- A measured value, such as a load. -/
  | value
  deriving DecidableEq, Repr, Inhabited

namespace Kind

/-- Both kinds, in order. -/
def all : List Kind := [count, value]

/-- Name in messages and in the identifiers of processors. -/
def lowerName : Kind → String
  | count => "count"
  | value => "value"

/-- Name in documents. -/
def tagName : Kind → String
  | count => "COUNT"
  | value => "VALUE"

/-- The kind with a name in documents. -/
def ofTagName? (name : String) : Option Kind := all.find? fun k => k.tagName == name

/-- The fields that every statistic of the kind offers, in display order. -/
def fields : Kind → List String
  | count =>
    ["Statistic Name", "Statistic UUID", "Date Time", "Statistic Count", "Precision",
      "Precision ms"]
  | value =>
    ["Statistic Name", "Statistic UUID", "Date Time", "Statistic Value", "Statistic Count",
      "Min Statistic Value", "Max Statistic Value", "Precision", "Precision ms"]

end Kind

/-- Which rolled-up variants of a statistic are written. -/
inductive Policy where
  /-- The fully specific variant alone. -/
  | none
  /-- Every combination of rolled-up tags. -/
  | all
  /-- The listed combinations, and the fully specific variant. -/
  | custom
  deriving DecidableEq, Repr, Inhabited

namespace Policy

/-- Name in messages. -/
def longName : Policy → String
  | none => "None"
  | all => "All"
  | custom => "Custom"

/-- Name in documents. -/
def tagName : Policy → String
  | none => "NONE"
  | all => "ALL"
  | custom => "CUSTOM"

/-- The policy with a name in documents. -/
def ofTagName? (name : String) : Option Policy :=
  [none, all, custom].find? fun p => p.tagName == name

end Policy

end Statistic

end StatRollup
