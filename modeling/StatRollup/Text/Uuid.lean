import StatRollup.Bytes.Hex
/-!
# Universally unique identifiers

128 bits, written as 32 hexadecimal digits in groups of 8, 4, 4, 4 and 12.  Reading also accepts
the 32 digits alone, and the grouped form in braces or after `urn:uuid:`.  Case does not matter.
-/
namespace StatRollup

/-- Sixteen octets. -/
structure Uuid where
  /-- The octets. -/
  bytes : Bytes
  deriving DecidableEq, Repr

namespace Uuid

/-- The grouped form in lower case. -/
def text (u : Uuid) : String :=
  let d := Bytes.hexDigits u.bytes
  String.ofList ((d.take 8) ++ '-' :: ((d.drop 8).take 4) ++ '-' :: ((d.drop 12).take 4) ++
    '-' :: ((d.drop 16).take 4) ++ '-' :: d.drop 20)

/-- Reads 32 digits. -/
def ofDigits? (cs : List Char) : Option Uuid :=
  if cs.length = 32 then (Bytes.ofHexDigits? cs).map Uuid.mk else none

/-- Reads the grouped form. -/
def ofGroups? (cs : List Char) : Option Uuid :=
  if cs.length = 36 ∧ [8, 13, 18, 23].all (fun i => cs[i]? == some '-') then
    ofDigits? (cs.take 8 ++ (cs.drop 9).take 4 ++ (cs.drop 14).take 4 ++ (cs.drop 19).take 4 ++
      cs.drop 24)
  else none

/-- What may stand before the grouped form. -/
def urn : List Char := "urn:uuid:".toList

/-- Reads any of the four forms. -/
def ofChars? (cs : List Char) : Option Uuid :=
  if cs.length = 32 then ofDigits? cs
  else if cs.length = 38 ∧ cs.head? = some '\x7b' ∧ cs.getLast? = some '\x7d' then
    ofGroups? ((cs.drop 1).take 36)
  else if cs.length = 45 ∧ (cs.take 9).map Char.toLower = urn then ofGroups? (cs.drop 9)
  else ofGroups? cs

/-- Reads any of the four forms. -/
def ofText? (s : String) : Option Uuid := ofChars? s.toList

end Uuid

end StatRollup
