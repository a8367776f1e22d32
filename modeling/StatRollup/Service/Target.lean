import StatRollup.Bytes.Checksum
import StatRollup.Bytes.Hex
/-!
# Request targets

A target is a path and a query, perhaps behind a scheme and an authority.  In path and query, an
octet may be written as a percent sign and two hexadecimal digits; other percent signs stand for
themselves.  In a query a plus sign stands for a blank.
-/
namespace StatRollup.Service

/-- The octets of a text in which octets may be written by their digits. -/
def percentDecode : Bytes → Bytes
  | 37 :: hi :: lo :: rest =>
    match Bytes.hexValue? (Char.ofNat hi.toNat), Bytes.hexValue? (Char.ofNat lo.toNat) with
    | some h, some l => UInt8.ofNat (16 * h + l) :: percentDecode rest
    | _, _ => 37 :: percentDecode (hi :: lo :: rest)
  | b :: rest => b :: percentDecode rest
  | [] => []

/-- The text of octets, if it is one. -/
def textOf? (bs : Bytes) : Option String := String.fromUTF8? ⟨bs.toArray⟩

/-- A part of a path in plain text, if it is one. -/
def plainPart? (part : String) : Option String := textOf? (percentDecode (Bytes.ofText part))

/-- A part of a query in plain octets. -/
def plainField (part : String) : Bytes :=
  percentDecode ((Bytes.ofText part).map fun b => if b = 43 then 32 else b)

/-- The text before the first occurrence of a character, and the text after it if it occurs. -/
def cutAt (c : Char) (s : String) : String × Option String :=
  match s.toList.span (· != c) with
  | (before, _ :: after) => (String.ofList before, some (String.ofList after))
  | (before, []) => (String.ofList before, none)

/-- A request target. -/
structure Target where
  /-- The parts of the path. -/
  path : List String
  /-- The query. -/
  query : String
  deriving DecidableEq, Repr

namespace Target

/-- The parts of a path.  A path starts with a slash, and a scheme and an authority may stand
before it; a target of any other form has no path. -/
def partsOf (path : String) : List String :=
  match path.splitOn "/" with
  | "" :: parts => parts
  | _scheme :: "" :: _authority :: parts => parts
  | _ => []

/-- Splits a target; what follows a number sign is not part of it. -/
def ofText (s : String) : Target :=
  let (path, query) := cutAt '?' (cutAt '#' s).1
  { path := partsOf path, query := query.getD "" }

/-- The fields of a query, names and values. -/
def fields (t : Target) : List (Bytes × Bytes) :=
  ((t.query.splitOn "&").filter (· ≠ "")).map fun field =>
    let (name, value) := cutAt '=' field
    (plainField name, plainField (value.getD ""))

/-- The values of a field. -/
def valuesOf (t : Target) (name : String) : List Bytes :=
  (t.fields.filter fun f => f.1 == Bytes.ofText name).map (·.2)

end Target

/-- The number below a bound that decimal digits, perhaps after a plus sign, stand for. -/
def numberBelow? (bound : Nat) (bs : Bytes) : Option Nat :=
  let ds := match bs with
    | 43 :: ds => ds
    | ds => ds
  if ds.isEmpty || ds.any (fun b => b < 48 || 57 < b) then none
  else
    let n := ds.foldl (fun n b => 10 * n + (b.toNat - 48)) 0
    if n < bound then some n else none

/-! ## Examples -/

example : percentDecode [37, 52, 49, 37, 37, 52] = [65, 37, 37, 52] := by decide
example : numberBelow? 65536 [43, 48, 55] = some 7 := by decide
example : numberBelow? 65536 [32, 49] = none := by decide

end StatRollup.Service
