/-!
# Blank characters

The characters with the Unicode property White_Space, 25 in all.  A text is blank when it has no
other character.
-/
namespace StatRollup.Text

/-- The ranges of code points with the property, ascending. -/
def blankRanges : List (Nat × Nat) :=
  [(0x09, 0x0D), (0x20, 0x20), (0x85, 0x85), (0xA0, 0xA0), (0x1680, 0x1680), (0x2000, 0x200A),
    (0x2028, 0x2029), (0x202F, 0x202F), (0x205F, 0x205F), (0x3000, 0x3000)]

/-- Whether a character has the property. -/
def isBlank (c : Char) : Bool := blankRanges.any fun r => r.1 ≤ c.toNat && c.toNat ≤ r.2

/-- Whether a text has blank characters only. -/
def allBlank (s : String) : Bool := s.toList.all isBlank

/-! ## Examples -/

example : (blankRanges.map fun r => r.2 + 1 - r.1).sum = 25 := by decide
example : isBlank ' ' = true ∧ isBlank '\u3000' = true ∧ isBlank '\u200b' = false := by decide
/-- Every blank character of the core library is one here. -/
example : [' ', '\t', '\r', '\n'].all isBlank = true := by decide

end StatRollup.Text
