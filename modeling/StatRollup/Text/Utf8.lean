import StatRollup.Bytes.Digits
/-!
# Octets that are not a text

A character is written in one to four octets.  The first one says how many follow it and in which
range the next one is; all others are from `0x80` to `0xBF`.  `flaw?` finds the first place where
octets are not written like this, and `Flaw.text` says it in words.
-/
namespace StatRollup.Text

/-- The first place where octets are not a text. -/
structure Flaw where
  /-- Number of octets in whole characters before it. -/
  index : Nat
  /-- Number of octets there that begin no character, unless the octets end in the middle of one. -/
  length? : Option Nat
  deriving DecidableEq, Repr

/-- How many octets follow the first octet of a longer character, and the range of the next. -/
def following? (first : Nat) : Option (Nat × Nat × Nat) :=
  if first < 0xC2 then none
  else if first ≤ 0xDF then some (1, 0x80, 0xBF)
  else if first = 0xE0 then some (2, 0xA0, 0xBF)
  else if first = 0xED then some (2, 0x80, 0x9F)
  else if first ≤ 0xEF then some (2, 0x80, 0xBF)
  else if first = 0xF0 then some (3, 0x90, 0xBF)
  else if first ≤ 0xF3 then some (3, 0x80, 0xBF)
  else if first = 0xF4 then some (3, 0x80, 0x8F)
  else none

/-- The first flaw after `seen` octets of a character that begins at an index and needs `owed` more
octets, the next one from `low` to `high`. -/
def flawFrom (index seen : Nat) : (owed low high : Nat) → Bytes → Option Flaw
  | 0, _, _, [] => none
  | _ + 1, _, _, [] => some ⟨index, none⟩
  | 0, _, _, b :: bs =>
    if b.toNat < 0x80 then flawFrom (index + 1) 0 0 0 0 bs
    else
      match following? b.toNat with
      | none => some ⟨index, some 1⟩
      | some (owed, low, high) => flawFrom index 1 owed low high bs
  | owed + 1, low, high, b :: bs =>
    if b.toNat < low ∨ high < b.toNat then some ⟨index, some seen⟩
    else if owed = 0 then flawFrom (index + seen + 1) 0 0 0 0 bs
    else flawFrom index (seen + 1) owed 0x80 0xBF bs

/-- The first flaw of octets. -/
def flaw? (bs : Bytes) : Option Flaw := flawFrom 0 0 0 0 0 bs

/-- A flaw in words. -/
def Flaw.text (f : Flaw) : String :=
  match f.length? with
  | some n => s!"invalid utf-8 sequence of {n} bytes from index {f.index}"
  | none => s!"incomplete utf-8 byte sequence from index {f.index}"

/-! ## Examples -/

/-- A surrogate has no octets of its own. -/
example : flaw? [97, 0xED, 0xA0, 0x80] = some ⟨1, some 1⟩ := by decide
example : flaw? [0xE2, 0x82] = some ⟨0, none⟩ := by decide
example : flaw? [0xE2, 0x82, 0xAC, 98] = none := by decide

end StatRollup.Text
