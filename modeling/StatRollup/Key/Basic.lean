import StatRollup.Interval.Codec
import StatRollup.Order.Ascending
import StatRollup.Uid.Codec
/-!
# Keys

A key names one cell: a statistic, a mask, a precision, a time bucket and the tag values.  Tags
are in order of their identifiers.  The row bucket is not part of a key, since the column bucket
determines it (`rowStart_columnStart`): the start of the row around a time is the start of the
row around the start of its column.
-/
namespace StatRollup

/-! ## Tag values -/

/-- A tag and its value, as identifiers. -/
structure TagValue where
  /-- Which tag. -/
  tag : Uid
  /-- Its value. -/
  value : Uid
  deriving DecidableEq, Repr

namespace TagValue

/-- The same tag, rolled up. -/
def rolledUp (t : TagValue) : TagValue := { t with value := t.value.rolledUp }

/-- By tag, then by value. -/
instance : Ord TagValue := ⟨compareLex (compareOn tag) (compareOn value)⟩

instance : Std.TransOrd TagValue :=
  inferInstanceAs (Std.TransCmp (compareLex (compareOn tag) (compareOn value)))

instance : Std.LawfulEqOrd TagValue where
  eq_of_compare {a b} h := by
    have h' : compareLex (compareOn tag) (compareOn value) a b = .eq := h
    rw [compareLex_eq_eq] at h'
    cases a; cases b
    cases Std.LawfulEqOrd.eq_of_compare (α := Uid) h'.1
    cases Std.LawfulEqOrd.eq_of_compare (α := Uid) h'.2
    rfl

/-- Tag and value in hexadecimal. -/
def text (t : TagValue) : String := s!"{t.tag.text}={t.value.text}"

end TagValue

/-! ## Keys -/

/-- The key of one cell. -/
structure Key where
  /-- The statistic. -/
  statistic : Uid
  /-- Which tag positions are rolled up. -/
  mask : Mask
  /-- The precision. -/
  interval : Interval
  /-- Start of the column bucket. -/
  columnTime : Timestamp
  /-- The tags. -/
  tags : List TagValue
  /-- The tags are in order. -/
  sorted : IsSorted tags
  deriving DecidableEq, Repr

namespace Key

/-- The key of a time and tags in any order. -/
def of (statistic : Uid) (mask : Mask) (interval : Interval) (time : Timestamp)
    (tags : List TagValue) : Key :=
  ⟨statistic, mask, interval, interval.columnStart time, insertionSort tags,
    isSorted_insertionSort tags⟩

/-- Start of the row bucket. -/
def rowTime (k : Key) : Timestamp := k.interval.rowStart k.columnTime

/-- The same cell at another precision. -/
def withInterval (k : Key) (interval : Interval) : Key :=
  { k with interval, columnTime := interval.columnStart k.columnTime }

/-- The parts of a key, separated by slashes. -/
def text (k : Key) : String :=
  s!"{k.statistic.text}/{k.mask.text}/{k.interval.shortName}/" ++
  s!"{k.rowTime.toInt}/{k.columnTime.toInt}" ++
  String.join (k.tags.map fun t => s!"/{t.text}")

/-! ## Order -/

/-- By statistic, mask, precision, row, column and tags. -/
def order : Key → Key → Ordering :=
  compareLex (compareOn statistic) <| compareLex (compareOn mask) <|
    compareLex (compareOn interval) <| compareLex (compareOn rowTime) <|
    compareLex (compareOn columnTime) (compareOn tags)

instance : Ord Key := ⟨order⟩

instance : Std.TransOrd Key := by
  unfold Std.TransOrd
  show Std.TransCmp order
  unfold order
  infer_instance

instance : Std.LawfulEqOrd Key where
  eq_of_compare {a b} h := by
    have h' : order a b = .eq := h
    simp only [order, compareLex_eq_eq, compareOn] at h'
    obtain ⟨hs, hm, hi, _, hc, ht⟩ := h'
    cases a; cases b
    cases Std.LawfulEqOrd.eq_of_compare hs
    cases Std.LawfulEqOrd.eq_of_compare hm
    cases Std.LawfulEqOrd.eq_of_compare hi
    cases Std.LawfulEqOrd.eq_of_compare hc
    cases Std.LawfulEqOrd.eq_of_compare ht
    rfl

/-! ## Buckets in buckets -/

/-- Rounding down to a multiple of a length, after rounding down to a finer bucket, is rounding
down at once. -/
theorem floorTo_floorTo {d e : Int} (hd : 0 < d) (he : 0 < e) (h : d ∣ e) (t : Timestamp) :
    Interval.floorTo e (Interval.floorTo d t) = Interval.floorTo e t := by
  apply Int64.toInt_inj.1
  rw [Interval.toInt_floorTo he, Interval.toInt_floorTo hd, Interval.toInt_floorTo he]
  obtain ⟨k, rfl⟩ := h
  have hk : 0 < k := Int.pos_of_mul_pos_right he hd
  have key : t.toInt / d * d / (d * k) = t.toInt / (d * k) := by
    rw [← Int.ediv_ediv_of_nonneg (Int.le_of_lt hd), Int.mul_ediv_cancel _ (Int.ne_of_gt hd),
      Int.ediv_ediv_of_nonneg (Int.le_of_lt hd)]
  have hle : t.toInt / (d * k) * (d * k) ≤ t.toInt / d * d := by
    rw [← key]
    exact Int.ediv_mul_le _ (Int.ne_of_gt he)
  by_cases hm : Interval.earliest ≤ t.toInt / d * d
  · rw [Int.max_eq_left hm, key]
  · have hm' : t.toInt / d * d ≤ Interval.earliest := by omega
    rw [Int.max_eq_right hm']
    have h1 : Interval.earliest / (d * k) * (d * k) ≤ Interval.earliest :=
      Int.ediv_mul_le _ (Int.ne_of_gt he)
    rw [Int.max_eq_right h1, Int.max_eq_right (Int.le_trans hle hm')]

/-- The row around a time is the row around its column. -/
theorem rowStart_columnStart (i : Interval) (t : Timestamp) :
    i.rowStart (i.columnStart t) = i.rowStart t :=
  floorTo_floorTo i.columnMillis_pos i.rowMillis_pos i.columnMillis_dvd_rowMillis t

/-- The column around a time is the column around its finer column. -/
theorem columnStart_columnStart {i j : Interval} (h : i.rank ≤ j.rank) (t : Timestamp) :
    j.columnStart (i.columnStart t) = j.columnStart t :=
  floorTo_floorTo i.columnMillis_pos j.columnMillis_pos (Interval.columnMillis_dvd h) t

@[simp] theorem rowTime_of (statistic : Uid) (mask : Mask) (interval : Interval)
    (time : Timestamp) (tags : List TagValue) :
    (of statistic mask interval time tags).rowTime = interval.rowStart time :=
  rowStart_columnStart interval time

end Key

end StatRollup
