import StatRollup.Fault
/-!
# Reading intervals and masks

An interval is stored as the eight octets of its column length, a mask as two octets.  Readers
look at the leading octets only and name what is wrong.
-/
namespace StatRollup

namespace Interval

/-- The interval with a one-letter name. -/
def ofShortName (name : String) : Except Fault Interval :=
  match ofShortName? name with
  | some i => .ok i
  | none => .error (.intervalName name)

/-- The interval with a column length. -/
def ofColumnMillis (millis : Int) : Except Fault Interval :=
  match ofColumnMillis? millis with
  | some i => .ok i
  | none => .error (.intervalMillis millis)

/-- The column length in eight octets. -/
def toBytes (i : Interval) : Bytes := Bytes.bigEndian 8 i.columnMillis.toNat

/-- The number that eight octets stand for in two's complement. -/
def signed (bs : Bytes) : Int := (UInt64.ofNat (Bytes.ofBigEndian bs)).toInt64.toInt

/-- Reads the first eight octets as a column length. -/
def ofBytes (bs : Bytes) : Except Fault Interval :=
  if bs.length < 8 then .error .intervalShort else ofColumnMillis (signed (bs.take 8))

theorem ofBytes_toBytes (i : Interval) : ofBytes i.toBytes = .ok i := by
  cases i <;> rfl

end Interval

namespace Mask

/-- The mask with given bits. -/
def ofBits (bits : Nat) : Except Fault Mask :=
  match ofBits? bits with
  | some m => .ok m
  | none => .error (.maskBits bits)

/-- Adds positions one by one and refuses the first that is out of range. -/
def addAll (m : Mask) : List Nat → Except Fault Mask
  | [] => .ok m
  | p :: ps => if h : p < 15 then (m.add p h).addAll ps else .error (.tagPosition p)

/-- The mask with given positions. -/
def ofPositions (positions : List Nat) : Except Fault Mask := zero.addAll positions

/-- Reads the first two octets. -/
def ofBytes (bs : Bytes) : Except Fault Mask :=
  if bs.length < 2 then .error .maskShort else ofBits (Bytes.ofBigEndian (bs.take 2))

theorem ofBytes_toBytes (m : Mask) : ofBytes m.toBytes = .ok m := by
  have hlen : m.toBytes.length = 2 := by simp [toBytes]
  have hlt : m.bits < 256 ^ 2 := Nat.lt_trans m.bits_lt (by decide)
  have hval : Bytes.ofBigEndian m.toBytes = m.bits := by
    rw [toBytes, Bytes.ofBigEndian_bigEndian, Nat.mod_eq_of_lt hlt]
  rw [ofBytes, if_neg (by omega), List.take_of_length_le (by omega), hval, ofBits, ofBits?,
    dif_pos m.bits_lt]

/-- A position is rolled up after `addAll` when it was before or is in the list. -/
theorem isRolledUp_addAll {m n : Mask} {ps : List Nat} (h : m.addAll ps = .ok n) (q : Nat) :
    n.isRolledUp q = (m.isRolledUp q || decide (q ∈ ps)) := by
  induction ps generalizing m with
  | nil => cases h; simp
  | cons p ps ih =>
    rw [addAll] at h
    split at h
    · rw [ih h, isRolledUp_add, Bool.or_assoc]
      congr 1
      simp [eq_comm]
    · cases h

/-! ## Examples -/

example : (ofPositions [0, 2, 2]).toOption.map bits = some 5 := by decide
example : ofPositions [14, 15, 99] = .error (.tagPosition 15) := by rfl
example : ofBytes [0x80, 0] = .error (.maskBits 0x8000) := by rfl

end Mask

end StatRollup
