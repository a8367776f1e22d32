import StatRollup.Fault
import StatRollup.Interval.Codec
import StatRollup.Order.Ascending
import StatRollup.Text.Blank
import StatRollup.Text.Uuid
/-!
# Statistic definitions

A definition names a data set and says what its events carry, at which precision it is stored,
which tags its events have and which rolled-up variants are written.  Tag names are a sorted set,
so the position of a tag is a property of the definition and masks can refer to it.
-/
namespace StatRollup

/-- The definition of a statistic. -/
structure Statistic where
  /-- Identity of the definition, if one was given. -/
  uuid : Option Uuid := none
  /-- Name, by which events refer to the statistic. -/
  name : String
  /-- Free text. -/
  description : String := ""
  /-- What its events carry. -/
  kind : Statistic.Kind
  /-- Which rolled-up variants are written. -/
  policy : Statistic.Policy := .none
  /-- The finest precision at which it is stored. -/
  precision : Interval
  /-- Whether its events are accepted. -/
  enabled : Bool := true
  /-- The tags that every event must have. -/
  tags : Ascending String := .empty
  /-- The masks of the custom policy, without the implicit zero mask. -/
  masks : Ascending Mask := .empty
  deriving DecidableEq, Repr

namespace Statistic

/-! ## Building -/

/-- Sets the tag names; order and repetitions do not matter. -/
def withTags (s : Statistic) (names : List String) : Statistic :=
  { s with tags := .ofList names }

/-- Place of a tag among the sorted tag names. -/
def positionOf? (s : Statistic) (tag : String) : Option Nat := s.tags.toList.idxOf? tag

/-- Whether events have the tag. -/
def isTag (s : Statistic) (name : String) : Bool := (s.positionOf? name).isSome

/-- The positions of tags; the first undeclared one is refused. -/
def positionsOf (s : Statistic) : List String → Except Fault (List Nat)
  | [] => .ok []
  | tag :: tags =>
    match s.positionOf? tag with
    | none => .error (.undefinedTag tag s.name)
    | some p => (s.positionsOf tags).map (p :: ·)

/-- Adds the mask that rolls up the given tags. -/
def withMask (s : Statistic) (rolledUp : List String) : Except Fault Statistic := do
  let positions ← s.positionsOf rolledUp
  let mask ← Mask.ofPositions positions
  return { s with masks := s.masks.insert mask }

/-- Adds masks one after another. -/
def withMasks (s : Statistic) : List (List String) → Except Fault Statistic
  | [] => .ok s
  | rolledUp :: rest => do (← s.withMask rolledUp).withMasks rest

/-- The fields that the statistic offers: those of its kind, then its tags. -/
def fields (s : Statistic) : List String := s.kind.fields ++ s.tags.toList

/-! ## Validity -/

/-- The first thing wrong with a definition: a blank name, too many tags, masks that the policy
does not use, or a mask that refers to a position without a tag. -/
def problem? (s : Statistic) : Option Fault :=
  if Text.allBlank s.name then some .blankName
  else if Mask.maxTags < s.tags.size then some (.tooManyTags s.name s.tags.size)
  else if s.policy ≠ .custom ∧ s.masks.toList ≠ [] then some (.unusedMasks s.name s.policy)
  else (s.masks.toList.find? fun m => m.positions.any (s.tags.size ≤ ·)).map
    fun m => .maskBeyondTags m s.name s.tags.size

/-- Refuses a definition with a problem. -/
def validate (s : Statistic) : Except Fault Unit :=
  match s.problem? with
  | some f => .error f
  | none => .ok ()

/-- Whether a definition may be registered. -/
def Valid (s : Statistic) : Prop := s.problem? = none

instance (s : Statistic) : Decidable s.Valid := by unfold Valid; infer_instance

theorem validate_eq_ok {s : Statistic} : s.validate = .ok () ↔ s.Valid := by
  unfold validate Valid
  split
  · next f h => simp [h]
  · next h => simp [h]

theorem Valid.size_tags_le {s : Statistic} (h : s.Valid) : s.tags.size ≤ 15 := by
  unfold Valid problem? at h
  split at h
  · cases h
  · split at h
    · cases h
    · next hn => exact Nat.le_of_not_lt hn

end Statistic

end StatRollup
