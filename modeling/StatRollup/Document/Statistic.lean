import StatRollup.Json.Decode
import StatRollup.Statistic.Basic
/-!
# Statistics as documents

A definition lists its custom masks by the tags that they roll up.  Only a valid definition is
accepted.
-/
namespace StatRollup

/-- Reads an interval by its name. -/
def Interval.ofJson : Json.Decoder Interval := Json.asName ofTagName?

/-- The name of an interval. -/
def Interval.toJson (i : Interval) : Json := .text i.tagName

/-- Reads a universally unique identifier. -/
def Uuid.ofJson : Json.Decoder Uuid := fun j => do
  match ofText? (← Json.asText j) with
  | some u => return u
  | none => throw .mismatch

namespace Statistic

/-- Reads a kind by its name. -/
def Kind.ofJson : Json.Decoder Kind := Json.asName ofTagName?

/-- The name of a kind. -/
def Kind.toJson (k : Kind) : Json := .text k.tagName

/-- Reads a rollup policy by its name. -/
def Policy.ofJson : Json.Decoder Policy := Json.asName ofTagName?

/-- The name of a policy. -/
def Policy.toJson (p : Policy) : Json := .text p.tagName

/-- A definition whose masks are still lists of tags. -/
structure Draft where
  /-- The definition without masks. -/
  base : Statistic
  /-- The tags that each mask rolls up. -/
  masks : List (List String)

namespace Draft

/-- A draft from its parts. -/
def of (uuid : Option Uuid) (name description : String) (kind : Kind) (policy : Policy)
    (precision : Interval) (enabled : Bool) (tags : List String) (masks : List (List String)) :
    Draft where
  base := withTags { uuid, name, description, kind, policy, precision, enabled } tags
  masks

/-- The definition, if it is valid. -/
def finish (d : Draft) : Except Fault Statistic := do
  let s ← d.base.withMasks d.masks
  s.validate
  return s

/-- The fields of a definition. -/
def form : Json.Form Draft :=
  Draft.of <$> .optional "uuid" none (fun j => (Uuid.ofJson j).map some)
    <*> .required "name" Json.asText
    <*> .optional "description" "" Json.asText
    <*> .required "statistic_type" Kind.ofJson
    <*> .optional "rollup_type" .none Policy.ofJson
    <*> .required "precision" Interval.ofJson
    <*> .optional "enabled" true Json.asBool
    <*> .optional "tag_names" [] (Json.asList Json.asText)
    <*> .optional "custom_masks" [] (Json.asList (Json.asList Json.asText))

end Draft

/-- Reads a valid definition. -/
def ofJson (j : Json) : Except Json.Refusal Statistic := do
  let draft ← Draft.form.read j
  match draft.finish with
  | .ok s => return s
  | .error f => throw (.invalid f)

/-- The document that describes a registered statistic. -/
def toJson (s : Statistic) : Json :=
  .recordOf [("name", .text s.name), ("description", .text s.description),
    ("statistic_type", s.kind.toJson), ("precision", s.precision.toJson),
    ("enabled", .bool s.enabled), ("tag_names", .listOf (s.tags.toList.map .text)),
    ("fields", .listOf (s.fields.map .text))]

end Statistic

end StatRollup
