import StatRollup.Uid.Codec
/-!
# Identifiers in a word

The number of an identifier fits a word of 64 bits, and all that is done with identifiers can be
done with words.  The octets of an identifier are the last of the eight octets of its word.  Octets
are read by moving up what was read so far.  The largest number of a width is a power of two less
one, but that of eight bytes is a case of its own, since its power of two is beyond the word.  A
shift has a result here only if it is by less than a word, and a difference only if it is not
negative.
-/
namespace StatRollup.Uid

/-- A word, and a width in bytes. -/
structure Word where
  /-- The width. -/
  width : Nat
  /-- The word. -/
  value : UInt64
  deriving DecidableEq, Repr

/-- The width and the number of an identifier. -/
def word (u : Uid) : Word := ⟨u.width, UInt64.ofNat u.value⟩

namespace Word

/-- A word moved up, if it is by less than a word.  What is moved out of the word is lost. -/
def shift? (v : UInt64) (bits : Nat) : Option UInt64 :=
  if bits < 64 then some (v <<< UInt64.ofNat bits) else none

/-- The difference, if it is not negative. -/
def minus? (v w : UInt64) : Option UInt64 := if w ≤ v then some (v - w) else none

/-- The largest number of a width. -/
def allOnes? (width : Nat) : Option UInt64 :=
  if maxWidth ≤ width then some (UInt64.ofNat (2 ^ 64 - 1))
  else do minus? (← shift? 1 (width * 8)) 1

/-- The identifier of a number at a width.  The width is judged first. -/
def make? (width : Nat) (value : UInt64) : Option (Except Fault Word) :=
  if isWidth width then do
    let largest ← allOnes? width
    return if largest < value then .error (.valueTooWide value.toNat width) else .ok ⟨width, value⟩
  else some (.error (.uidWidth width))

/-- Whether the identifier stands for a rolled-up value. -/
def isRolledUp? (w : Word) : Option Bool := do return w.value == (← allOnes? w.width)

/-- The eight octets of a word, the highest first. -/
def octets (v : UInt64) : Bytes :=
  [56, 48, 40, 32, 24, 16, 8, 0].map fun bits : UInt64 => (v >>> bits).toUInt8

/-- As many of the last octets as the width says, if there are so many. -/
def toBytes? (w : Word) : Option Bytes :=
  if w.width ≤ maxWidth then some ((octets w.value).drop (maxWidth - w.width)) else none

/-- A buffer with the identifier behind what it holds, as something else writes numbers. -/
def put (write : Bytes → UInt64 → Nat → Bytes) (w : Word) (buffer : Bytes) : Bytes :=
  write buffer w.value w.width

/-- Moves up what was read and puts one more octet in. -/
def readNext (v : UInt64) (b : UInt8) : UInt64 := v <<< 8 ||| b.toUInt64

/-- The word that octets make up, the highest first. -/
def read (bs : Bytes) : UInt64 := bs.foldl readNext 0

/-- The identifier with given octets; their number is the width. -/
def ofBytes (bs : Bytes) : Except Fault Word :=
  if isWidth bs.length then .ok ⟨bs.length, read bs⟩ else .error (.uidWidth bs.length)

end Word

/-! ## Examples -/

example : (Word.mk 4 0x01020304).toBytes? = some [1, 2, 3, 4] := by decide
example : Word.read [1, 2, 3, 4] = 0x01020304 := by decide
/-- The power of two of eight bytes is not there to take one away. -/
example : Word.shift? 1 (8 * 8) = none := by decide

end StatRollup.Uid
