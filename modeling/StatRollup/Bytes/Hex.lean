import StatRollup.Bytes.Digits
/-!
# Hexadecimal text

An octet is written as two lower-case digits.  Reading accepts digits of either case and refuses
an odd number of them.
-/
namespace StatRollup.Bytes

/-- The lower-case digit of a number below 16. -/
def hexDigit (n : Nat) : Char :=
  if n < 10 then Char.ofNat (48 + n) else Char.ofNat (87 + n)

/-- The number that a digit of either case stands for. -/
def hexValue? (c : Char) : Option Nat :=
  if '0' ≤ c ∧ c ≤ '9' then some (c.toNat - 48)
  else if 'a' ≤ c ∧ c ≤ 'f' then some (c.toNat - 87)
  else if 'A' ≤ c ∧ c ≤ 'F' then some (c.toNat - 55)
  else none

/-- Two digits for every octet. -/
def hexDigits : Bytes → List Char
  | [] => []
  | b :: bs => hexDigit (b.toNat / 16) :: hexDigit (b.toNat % 16) :: hexDigits bs

/-- The text of a run of octets. -/
def toHex (bs : Bytes) : String := String.ofList (hexDigits bs)

/-- The octets that pairs of digits stand for. -/
def ofHexDigits? : List Char → Option Bytes
  | [] => some []
  | hi :: lo :: rest =>
    match hexValue? hi, hexValue? lo, ofHexDigits? rest with
    | some h, some l, some bs => some (UInt8.ofNat (16 * h + l) :: bs)
    | _, _, _ => none
  | [_] => none

/-- The octets that a text stands for. -/
def ofHex? (s : String) : Option Bytes := ofHexDigits? s.toList

/-! ## Examples -/

example : hexDigits [0, 255, 0x1a] = ['0', '0', 'f', 'f', '1', 'a'] := by decide
example : ofHexDigits? ['F', 'f', '0', '1'] = some [255, 1] := by decide
example : ofHexDigits? ['f'] = none := by decide

end StatRollup.Bytes
