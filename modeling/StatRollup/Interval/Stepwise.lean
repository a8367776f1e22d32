import StatRollup.Interval.Basic
/-!
# Rounding down in 64 bits

A time has 64 bits, and so has everything that rounding it down computes on the way: a quotient,
which is corrected where division leaves a negative remainder, and the product of the quotient with
the length of the bucket.  Each operation here has a result only if that fits 64 bits.  A quotient
always does.  A product does not where the bucket starts before the earliest time, and this is the
one case that is looked at.
-/
namespace StatRollup.Interval

/-- A number in 64 bits, if it fits them. -/
def fit? (n : Int) : Option Timestamp :=
  if earliest ≤ n ∧ n < 2 ^ 63 then some (Int64.ofInt n) else none

/-- The quotient that leaves no negative remainder.  Division drops the fraction, so the quotient
of a negative number may have to be corrected by one. -/
def quotient? (t width : Timestamp) : Option Timestamp :=
  if width = 0 then none else do
    let q ← fit? (t.toInt.tdiv width.toInt)
    if 0 ≤ t.toInt.tmod width.toInt then some q
    else if 0 < width.toInt then fit? (q.toInt - 1)
    else fit? (q.toInt + 1)

/-- The product, if it fits. -/
def product? (a b : Timestamp) : Option Timestamp := fit? (a.toInt * b.toInt)

/-- Rounding down one operation after another. -/
def floorStepwise? (width t : Timestamp) : Option Timestamp := do
  let q ← quotient? t width
  return (product? q width).getD (Int64.ofInt earliest)

/-- Whether the products of all row lengths fit, one after another. -/
def supportsStepwise? (t : Timestamp) : Option Bool :=
  all.allM fun i => do
    let q ← quotient? t (Int64.ofInt i.rowMillis)
    return (product? q (Int64.ofInt i.rowMillis)).isSome

/-! ## Examples -/

/-- The remainder of a division would be -1, so the quotient is one less. -/
example : quotient? (-1) 1000 = some (-1) := by decide
/-- The one quotient that does not fit. -/
example : quotient? Int64.minValue (-1) = none := by decide

end StatRollup.Interval
