import StatRollup.Bytes.Hex
/-!
# Identifiers

Every name that takes part in a key is exchanged for an identifier of a fixed width in bytes.
Two values of a width are never issued: zero, and all ones, which stands for a rolled-up tag
value.
-/
namespace StatRollup

/-- A number in a width of one to eight bytes. -/
structure Uid where
  /-- The width in bytes. -/
  width : Nat
  /-- The number. -/
  value : Nat
  /-- The width is at least one byte. -/
  width_pos : 0 < width
  /-- The width is at most eight bytes. -/
  width_le : width ≤ 8
  /-- The number fits its width. -/
  value_lt : value < 256 ^ width
  deriving DecidableEq, Repr

namespace Uid

/-- The widest identifier, in bytes. -/
def maxWidth : Nat := 8

/-- Name of a rolled-up tag value. -/
def rolledUpName : String := "*"

/-- The largest number of a width; widths beyond eight count as eight. -/
def allOnes (width : Nat) : Nat := 256 ^ min width maxWidth - 1

/-- The largest number that may be issued at a width. -/
def maxIssuable (width : Nat) : Nat := allOnes width - 1

/-- Whether identifiers may have a width. -/
def isWidth (width : Nat) : Bool := decide (0 < width ∧ width ≤ maxWidth)

theorem isWidth_iff {width : Nat} : isWidth width = true ↔ 0 < width ∧ width ≤ 8 :=
  decide_eq_true_iff

theorem allOnes_eq {width : Nat} (h : width ≤ 8) : allOnes width = 256 ^ width - 1 := by
  rw [allOnes, maxWidth, Nat.min_eq_left h]

/-- The identifier of a number, if the width is one and the number fits it. -/
def ofNat? (width value : Nat) : Option Uid :=
  if hw : 0 < width ∧ width ≤ 8 then
    if hv : value < 256 ^ width then some ⟨width, value, hw.1, hw.2, hv⟩ else none
  else none

/-- The identifier of the same width that stands for a rolled-up value. -/
def rolledUp (u : Uid) : Uid :=
  ⟨u.width, 256 ^ u.width - 1, u.width_pos, u.width_le,
    Nat.sub_lt (Nat.pow_pos (by decide)) (by decide)⟩

/-- Whether the identifier stands for a rolled-up value. -/
def isRolledUp (u : Uid) : Bool := u == u.rolledUp

/-- As many octets as the width says, the highest first. -/
def toBytes (u : Uid) : Bytes := Bytes.bigEndian u.width u.value

/-- The octets in hexadecimal. -/
def text (u : Uid) : String := u.toBytes.toHex

/-- The identifier with given octets, if there are one to eight of them. -/
def ofBytes? (bs : Bytes) : Option Uid := ofNat? bs.length (Bytes.ofBigEndian bs)

/-! ## Order -/

/-- By number, then by width. -/
instance : Ord Uid := ⟨compareLex (compareOn value) (compareOn width)⟩

instance : Std.TransOrd Uid :=
  inferInstanceAs (Std.TransCmp (compareLex (compareOn value) (compareOn width)))

theorem ext_value {a b : Uid} (hw : a.width = b.width) (hv : a.value = b.value) : a = b := by
  cases a; cases b; cases hw; cases hv; rfl

instance : Std.LawfulEqOrd Uid where
  eq_of_compare {a b} h := by
    have h' : compareLex (compareOn value) (compareOn width) a b = .eq := h
    rw [compareLex_eq_eq] at h'
    exact ext_value (Std.LawfulEqOrd.eq_of_compare (α := Nat) h'.2)
      (Std.LawfulEqOrd.eq_of_compare (α := Nat) h'.1)

/-! ## Octets -/

@[simp] theorem length_toBytes (u : Uid) : u.toBytes.length = u.width := by simp [toBytes]

@[simp] theorem ofBytes?_toBytes (u : Uid) : ofBytes? u.toBytes = some u := by
  have hv : Bytes.ofBigEndian u.toBytes = u.value := by
    rw [toBytes, Bytes.ofBigEndian_bigEndian, Nat.mod_eq_of_lt u.value_lt]
  rw [ofBytes?, length_toBytes, hv, ofNat?, dif_pos ⟨u.width_pos, u.width_le⟩,
    dif_pos u.value_lt]

theorem toBytes_of_ofBytes? {bs : Bytes} {u : Uid} (h : ofBytes? bs = some u) :
    u.toBytes = bs := by
  rw [ofBytes?, ofNat?] at h
  split at h
  · split at h
    · cases h; exact Bytes.bigEndian_ofBigEndian bs
    · cases h
  · cases h

/-- Identifiers with the same octets are the same. -/
theorem toBytes_inj {a b : Uid} (h : a.toBytes = b.toBytes) : a = b := by
  have := congrArg ofBytes? h
  simpa using this

/-! ## Examples -/

example : (ofNat? 4 1).map toBytes = some [0, 0, 0, 1] := by decide
example : ofNat? 1 256 = none ∧ ofNat? 0 0 = none ∧ ofNat? 9 0 = none := by decide
example : (ofNat? 1 255).map isRolledUp = some true := by decide
example : maxIssuable 1 = 254 ∧ maxIssuable 9 = 2 ^ 64 - 2 := by decide

end Uid

end StatRollup
