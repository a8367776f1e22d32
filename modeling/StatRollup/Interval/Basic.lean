import StatRollup.Powers
/-!
# Storage precisions

A time is rounded at two levels: down to a *row* bucket, which becomes part of the row key, and
down to a finer *column* bucket inside that row.  Every bucket length divides the bucket lengths
of the coarser precisions (`columnMillis_dvd`, `columnMillis_dvd_rowMillis`), so a coarser bucket
is found from a finer one without the exact time.
-/
namespace StatRollup

/-- Milliseconds since the start of 1970, in 64 bits. -/
abbrev Timestamp := Int64

/-- The precision at which a statistic is stored. -/
inductive Interval where
  /-- Hourly rows with columns of a second. -/
  | second
  /-- Daily rows with columns of a minute. -/
  | minute
  /-- Four-weekly rows with columns of an hour. -/
  | hour
  /-- Rows of 52 weeks with columns of a day. -/
  | day
  deriving DecidableEq, Repr, Inhabited

namespace Interval

/-- Every precision, finest first. -/
def all : List Interval := [second, minute, hour, day]

/-- The place of a precision in `all`. -/
def rank : Interval → Nat
  | second => 0
  | minute => 1
  | hour => 2
  | day => 3

/-- Length of a column bucket. -/
def columnMillis : Interval → Int
  | second => 1000
  | minute => 60000
  | hour => 3600000
  | day => 86400000

/-- Length of a row bucket. -/
def rowMillis : Interval → Int
  | second => 3600000
  | minute => 86400000
  | hour => 2419200000
  | day => 31449600000

/-- Name in messages. -/
def longName : Interval → String
  | second => "Second"
  | minute => "Minute"
  | hour => "Hour"
  | day => "Day"

/-- Name in the identifiers of processors. -/
def lowerName : Interval → String
  | second => "second"
  | minute => "minute"
  | hour => "hour"
  | day => "day"

/-- Name in documents. -/
def tagName : Interval → String
  | second => "SECOND"
  | minute => "MINUTE"
  | hour => "HOUR"
  | day => "DAY"

/-- One-letter name in the text of a key. -/
def shortName : Interval → String
  | second => "s"
  | minute => "m"
  | hour => "h"
  | day => "d"

/-- The next coarser precision. -/
def coarser? : Interval → Option Interval
  | second => some minute
  | minute => some hour
  | hour => some day
  | day => none

/-- The precision with a one-letter name. -/
def ofShortName? (name : String) : Option Interval := all.find? fun i => i.shortName == name

/-- The precision with a column length. -/
def ofColumnMillis? (millis : Int) : Option Interval :=
  all.find? fun i => i.columnMillis == millis

/-- The precision with a name in documents. -/
def ofTagName? (name : String) : Option Interval := all.find? fun i => i.tagName == name

instance : Ord Interval := ⟨compareOn rank⟩

instance : Std.TransOrd Interval := inferInstanceAs (Std.TransCmp (compareOn rank))

instance : Std.LawfulEqOrd Interval where
  eq_of_compare {a b} h := by
    have hr : a.rank = b.rank := Std.LawfulEqOrd.eq_of_compare (α := Nat) h
    cases a <;> cases b <;> first | rfl | cases hr

/-! ## Rounding down -/

/-- The earliest time that 64 bits hold. -/
def earliest : Int := -2 ^ 63

/-- The greatest multiple of `width` that is not after `t`, or the earliest time where that
multiple is not representable; so the answer is never after `t`. -/
def floorTo (width : Int) (t : Timestamp) : Timestamp :=
  Int64.ofInt (max (t.toInt / width * width) earliest)

/-- Start of the row bucket of a time. -/
def rowStart (i : Interval) (t : Timestamp) : Timestamp := floorTo i.rowMillis t

/-- Start of the column bucket of a time. -/
def columnStart (i : Interval) (t : Timestamp) : Timestamp := floorTo i.columnMillis t

/-- Whether the start of every row bucket around `t` is representable. -/
def supports (t : Timestamp) : Bool :=
  all.all fun i => decide (earliest ≤ t.toInt / i.rowMillis * i.rowMillis)

/-! ## Bucket lengths -/

theorem columnMillis_pos (i : Interval) : 0 < i.columnMillis := by cases i <;> decide

theorem rowMillis_pos (i : Interval) : 0 < i.rowMillis := by cases i <;> decide

theorem columnMillis_dvd_rowMillis (i : Interval) : i.columnMillis ∣ i.rowMillis := by
  cases i <;> decide

/-- A finer column divides a coarser one. -/
theorem columnMillis_dvd {i j : Interval} (h : i.rank ≤ j.rank) :
    i.columnMillis ∣ j.columnMillis := by
  cases i <;> cases j <;> revert h <;> decide

/-- A finer column divides a coarser row. -/
theorem columnMillis_dvd_rowMillis_of_le {i j : Interval} (h : i.rank ≤ j.rank) :
    i.columnMillis ∣ j.rowMillis :=
  Int.dvd_trans (columnMillis_dvd h) (columnMillis_dvd_rowMillis j)

theorem coarser?_rank {i j : Interval} (h : i.coarser? = some j) : j.rank = i.rank + 1 := by
  cases i <;> cases h <;> rfl

/-- What rounding down computes, as an integer. -/
theorem toInt_floorTo {width : Int} (hw : 0 < width) (t : Timestamp) :
    (floorTo width t).toInt = max (t.toInt / width * width) earliest := by
  have hle : t.toInt / width * width ≤ t.toInt := Int.ediv_mul_le _ (Int.ne_of_gt hw)
  have hlt : t.toInt < 2 ^ 63 := Int64.toInt_lt t
  rw [floorTo, earliest]
  apply Int64.toInt_ofInt_of_le <;> omega

/-! ## Examples -/

example : (minute.columnStart 119999).toInt = 60000 := by decide
/-- Times before 1970 round down too. -/
example : (second.columnStart (-1)).toInt = -1000 := by decide
/-- The bucket that would start before the earliest time starts there instead. -/
example : (day.rowStart Int64.minValue).toInt = earliest := by decide
example : supports 0 = true ∧ supports Int64.minValue = false := by decide

end Interval

end StatRollup
