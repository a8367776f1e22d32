import StatRollup.Bytes.Digits
/-!
# Rollup masks

A mask marks which tag positions of a statistic are rolled up in one variant of its cells.
Bit `i` stands for position `i` in the statistic's sorted tag names, so a mask means the same for
every statistic with the same tag layout.  A mask is also the set of its positions
(`mem_positions`).
-/
namespace StatRollup

/-- A set of tag positions below 15, as bits. -/
structure Mask where
  /-- The positions, as a binary number. -/
  bits : Nat
  /-- No position is 15 or more. -/
  bits_lt : bits < 2 ^ 15
  deriving DecidableEq, Repr

namespace Mask

/-- The largest number of tags that a mask can speak of. -/
def maxTags : Nat := 15

/-- The mask that rolls nothing up. -/
def zero : Mask := ⟨0, by decide⟩

instance : Inhabited Mask := ⟨zero⟩

instance : Ord Mask := ⟨compareOn bits⟩

instance : Std.TransOrd Mask := inferInstanceAs (Std.TransCmp (compareOn bits))

instance : Std.LawfulEqOrd Mask where
  eq_of_compare {a b} h := by
    cases a; cases b
    have : _ = _ := Std.LawfulEqOrd.eq_of_compare (α := Nat) h
    cases this; rfl

/-- Whether nothing is rolled up. -/
def isZero (m : Mask) : Bool := m.bits == 0

/-- Whether the tag at a position is rolled up. -/
def isRolledUp (m : Mask) (position : Nat) : Bool := m.bits.testBit position

/-- The rolled-up positions, ascending. -/
def positions (m : Mask) : List Nat := (List.range maxTags).filter m.isRolledUp

/-- The mask with given bits, if they are in range. -/
def ofBits? (bits : Nat) : Option Mask := if h : bits < 2 ^ 15 then some ⟨bits, h⟩ else none

/-- Adds a position that is in range. -/
def add (m : Mask) (position : Nat) (h : position < 15) : Mask :=
  ⟨m.bits ||| 2 ^ position, Nat.or_lt_two_pow m.bits_lt (Nat.pow_lt_pow_right (by decide) h)⟩

/-- The mask that rolls up the first `count` positions, at most all 15. -/
def allRolledUp (count : Nat) : Mask :=
  ⟨2 ^ min count maxTags - 1, by
    have h : 2 ^ min count maxTags ≤ 2 ^ 15 :=
      Nat.pow_le_pow_right (by decide) (Nat.min_le_right _ _)
    have : 0 < 2 ^ min count maxTags := Nat.two_pow_pos _
    omega⟩

/-- Every mask up to a given one, ascending. -/
def upTo (top : Mask) : List Mask :=
  (List.range (top.bits + 1)).filterMap ofBits?

/-- Every mask over `count` positions, ascending. -/
def allOver (count : Nat) : List Mask := (allRolledUp count).upTo

/-- Two octets, the higher one first. -/
def toBytes (m : Mask) : Bytes := Bytes.bigEndian 2 m.bits

/-- The bits as 15 binary digits, highest position first. -/
def text (m : Mask) : String :=
  String.ofList ((List.range maxTags).reverse.map fun p => if m.isRolledUp p then '1' else '0')

/-! ## Positions -/

theorem isRolledUp_lt {m : Mask} {p : Nat} (h : m.isRolledUp p = true) : p < 15 := by
  apply Decidable.byContradiction
  intro hp
  have : m.bits < 2 ^ p :=
    Nat.lt_of_lt_of_le m.bits_lt (Nat.pow_le_pow_right (by decide) (Nat.le_of_not_lt hp))
  rw [isRolledUp, Nat.testBit_lt_two_pow this] at h
  cases h

@[simp] theorem mem_positions {m : Mask} {p : Nat} :
    p ∈ m.positions ↔ m.isRolledUp p = true := by
  simp only [positions, List.mem_filter, List.mem_range, maxTags]
  exact ⟨fun h => h.2, fun h => ⟨isRolledUp_lt h, h⟩⟩

@[simp] theorem isRolledUp_zero (p : Nat) : zero.isRolledUp p = false := by
  simp [zero, isRolledUp]

theorem isRolledUp_add (m : Mask) (p q : Nat) (h : p < 15) :
    (m.add p h).isRolledUp q = (m.isRolledUp q || decide (p = q)) := by
  simp [add, isRolledUp, Nat.testBit_or, Nat.testBit_two_pow]

/-- Masks with the same positions are the same. -/
theorem ext_isRolledUp {a b : Mask} (h : ∀ p, a.isRolledUp p = b.isRolledUp p) : a = b := by
  cases a with | mk x hx =>
  cases b with | mk y hy =>
  have : x = y := Nat.eq_of_testBit_eq h
  cases this; rfl

/-! ## Examples -/

example : (allRolledUp 3).positions = [0, 1, 2] := by decide
example : (allOver 2).map bits = [0, 1, 2, 3] := by decide
example : (allRolledUp 40).bits = 32767 := by decide
example : ofBits? 32768 = none := by decide

end Mask

end StatRollup
