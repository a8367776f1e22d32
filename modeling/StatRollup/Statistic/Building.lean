import StatRollup.Statistic.Basic
/-!
# Building a definition

A definition starts with a name, a kind and a precision, and is then changed part by part, in any
order.  A mask is given by tag names and kept as their positions at that time, so it is the tag
names set before that a mask is looked up in, and those set last that it is read with.
-/
namespace StatRollup.Statistic

/-- A definition without tags and masks. -/
def new (name : String) (kind : Kind) (precision : Interval) : Statistic :=
  { name, kind, precision }

/-- A change of one part of a definition. -/
inductive Change where
  /-- Sets the tag names. -/
  | tags (names : List String)
  /-- Adds the mask that rolls up the given tags. -/
  | mask (rolledUp : List String)
  /-- Sets the rollup policy. -/
  | policy (policy : Policy)
  /-- Sets the description. -/
  | description (text : String)
  /-- Enables or disables the statistic. -/
  | enabled (flag : Bool)
  deriving DecidableEq, Repr

/-- Changes one part.  Only a mask can be refused. -/
def change (s : Statistic) : Change → Except Fault Statistic
  | .tags names => .ok (s.withTags names)
  | .mask rolledUp => s.withMask rolledUp
  | .policy policy => .ok { s with policy }
  | .description description => .ok { s with description }
  | .enabled enabled => .ok { s with enabled }

/-- Changes one part after another; the first refusal is the answer. -/
def changeAll (s : Statistic) : List Change → Except Fault Statistic
  | [] => .ok s
  | c :: rest => do (← s.change c).changeAll rest

end StatRollup.Statistic
