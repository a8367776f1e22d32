import Mathlib.Order.Bounds.Defs
import Mathlib.Tactic.ByContra
import StatRollup.Interval.Stepwise
import StatRollup.Key.Basic

/-!
# Rounding down saturates, and where it does not

Rounding down gives the greatest multiple of a length that is not after a time, or the earliest time
where that multiple is before it (`saturatingFloor_floorTo`).  Done one operation after another in
64 bits it gives the same, and no operation but the last product is ever out of range
(`quotient?_eq`, `floorStepwise?_eq`).

Every row length divides the longest one, 364 days.  So a multiple of 364 days that is not after a
time is not after the start of any row around it, and one threshold decides for all precisions at
once whether the starts of their rows are representable: the least multiple of 364 days that is
(`supports_iff_firstRow_le`).
-/

namespace StatRollup.Interval

variable {width m k : Int} {t u : Timestamp}

/-! ## The greatest multiple that is not greater -/

/-- `m` is the greatest multiple of `width` that is not greater than `n`. -/
structure IsFloor (width n m : Int) : Prop where
  dvd : width ∣ m
  le : m ≤ n
  lt : n < m + width

theorem isFloor_ediv (hpos : 0 < width) (n : Int) : IsFloor width n (n / width * width) where
  dvd := Int.dvd_mul_left _ _
  le := Int.ediv_mul_le _ (Int.ne_of_gt hpos)
  lt := by
    have hrest := Int.emod_lt_of_pos n hpos
    have hsum := Int.mul_ediv_add_emod n width
    rw [Int.mul_comm] at hsum
    omega

/-- Multiples that are not greater than a number are not greater than its floor. -/
theorem IsFloor.le_of_dvd {n : Int} (h : IsFloor width n m) (hk : width ∣ k) (hle : k ≤ n) :
    k ≤ m := by
  by_contra hlt
  have hgap : width ≤ k - m := Int.le_of_dvd (by omega) (Int.dvd_sub hk h.dvd)
  have hbound := h.lt
  omega

theorem IsFloor.eq {n : Int} (h : IsFloor width n m) (h' : IsFloor width n k) : m = k :=
  Int.le_antisymm (h'.le_of_dvd h.dvd h.le) (h.le_of_dvd h'.dvd h'.le)

/-! ## Rounding down -/

theorem floorTo_le (hpos : 0 < width) (t : Timestamp) : floorTo width t ≤ t := by
  have hle := (isFloor_ediv hpos t.toInt).le
  have hearliest : earliest ≤ t.toInt := Int64.le_toInt t
  rw [Int64.le_iff_toInt_le, toInt_floorTo hpos]
  omega

theorem floorTo_mono (hpos : 0 < width) (h : t ≤ u) : floorTo width t ≤ floorTo width u := by
  rw [Int64.le_iff_toInt_le] at h
  have ht := isFloor_ediv hpos t.toInt
  have hfloors := (isFloor_ediv hpos u.toInt).le_of_dvd ht.dvd (Int.le_trans ht.le h)
  rw [Int64.le_iff_toInt_le, toInt_floorTo hpos, toInt_floorTo hpos]
  omega

/-- Buckets begin no later than finer ones in them. -/
theorem floorTo_le_floorTo {d e : Int} (hd : 0 < d) (he : 0 < e) (h : d ∣ e) (t : Timestamp) :
    floorTo e t ≤ floorTo d t := by
  have hcoarse := isFloor_ediv he t.toInt
  have hfloors := (isFloor_ediv hd t.toInt).le_of_dvd (Int.dvd_trans h hcoarse.dvd) hcoarse.le
  rw [Int64.le_iff_toInt_le, toInt_floorTo hd, toInt_floorTo he]
  omega

/-! ## One operation after another -/

theorem fit?_eq_some (hle : earliest ≤ m) (hlt : m < 2 ^ 63) : fit? m = some (Int64.ofInt m) :=
  if_pos ⟨hle, hlt⟩

theorem toInt_ofInt (hle : earliest ≤ m) (hlt : m < 2 ^ 63) : (Int64.ofInt m).toInt = m :=
  Int64.toInt_ofInt_of_le hle hlt

/-- Dividing by a positive number leaves the range no more than dropping the fraction does. -/
theorem ediv_bounds (hpos : 0 < width) (t : Timestamp) :
    earliest ≤ t.toInt / width ∧ t.toInt / width < 2 ^ 63 := by
  have hle := Int64.le_toInt t
  have hlt := Int64.toInt_lt t
  rw [Int.le_ediv_iff_mul_le hpos, Int.ediv_lt_iff_lt_mul hpos, earliest]
  omega

/-- Division drops the fraction, so it is one too high where it leaves a negative remainder. -/
theorem ediv_eq_tdiv (hpos : 0 < width) (n : Int) :
    n / width = if 0 ≤ n.tmod width then n.tdiv width else n.tdiv width - 1 := by
  have hsum := Int.mul_tdiv_add_tmod n width
  have hlow := Int.lt_tmod_of_pos n hpos
  have hhigh := Int.tmod_lt_of_pos n hpos
  split
  · next hrest =>
    exact ((Int.ediv_emod_unique hpos).2 ⟨by omega, hrest, hhigh⟩).1
  · next hrest =>
    refine ((Int.ediv_emod_unique hpos (r := n.tmod width + width)).2 ⟨?_, by omega, by omega⟩).1
    rw [Int.mul_sub, Int.mul_one]
    omega

/-- The quotient is always in range. -/
theorem quotient?_eq (hpos : 0 < width) (hlt : width < 2 ^ 63) (t : Timestamp) :
    quotient? t (Int64.ofInt width) = some (Int64.ofInt (t.toInt / width)) := by
  have hwidth : (Int64.ofInt width).toInt = width := toInt_ofInt (by rw [earliest]; omega) hlt
  have hne : Int64.ofInt width ≠ 0 := by
    intro hzero
    rw [hzero] at hwidth
    exact Int.ne_of_lt hpos hwidth
  obtain ⟨hle, hlt'⟩ := ediv_bounds hpos t
  have hquotient := ediv_eq_tdiv hpos t.toInt
  rw [quotient?, if_neg hne, hwidth]
  by_cases hrest : 0 ≤ t.toInt.tmod width
  · rw [if_pos hrest] at hquotient
    rw [hquotient] at hle hlt'
    simp [hrest, hquotient, fit?_eq_some hle hlt']
  · have hnegative : t.toInt < 0 := by
      by_contra hnonneg
      exact hrest (Int.tmod_nonneg _ (Int.not_lt.1 hnonneg))
    have hbelow : t.toInt / width < 0 := by
      rw [Int.ediv_lt_iff_lt_mul hpos]
      omega
    rw [if_neg hrest] at hquotient
    have hfit : fit? (t.toInt.tdiv width) = some (Int64.ofInt (t.toInt.tdiv width)) :=
      fit?_eq_some (by omega) (by omega)
    have hvalue : (Int64.ofInt (t.toInt.tdiv width)).toInt = t.toInt.tdiv width :=
      toInt_ofInt (by omega) (by omega)
    rw [hquotient] at hle hlt'
    simp [hrest, hpos, hfit, hvalue, hquotient, fit?_eq_some hle hlt']

/-- The product is in range where the floor is. -/
theorem product?_quotient (hpos : 0 < width) (hlt : width < 2 ^ 63) (t : Timestamp) :
    product? (Int64.ofInt (t.toInt / width)) (Int64.ofInt width) =
      if earliest ≤ t.toInt / width * width then some (floorTo width t) else none := by
  have hwidth : (Int64.ofInt width).toInt = width := toInt_ofInt (by rw [earliest]; omega) hlt
  obtain ⟨hle, hlt'⟩ := ediv_bounds hpos t
  have hfloor := (isFloor_ediv hpos t.toInt).le
  have htime := Int64.toInt_lt t
  rw [product?, toInt_ofInt hle hlt', hwidth, fit?]
  split
  · next hfits => rw [if_pos hfits.1, floorTo, Int.max_eq_left hfits.1]
  · next hbefore => rw [if_neg fun hfits => hbefore ⟨hfits, by omega⟩]

/-- Rounding down meets no result that does not fit except where it saturates. -/
theorem floorStepwise?_eq (hpos : 0 < width) (hlt : width < 2 ^ 63) (t : Timestamp) :
    floorStepwise? (Int64.ofInt width) t = some (floorTo width t) := by
  rw [floorStepwise?, quotient?_eq hpos hlt]
  show some _ = _
  rw [product?_quotient hpos hlt]
  split
  · rfl
  · next hbefore =>
    rw [floorTo, Int.max_eq_right (by omega)]
    rfl

/-! ## Saturation -/

/-- A function on times is the floor to a length, except that it gives the earliest time where the
floor is before that.  It can be computed without a result that does not fit 64 bits. -/
structure SaturatingFloor (width : Int) (round : Timestamp → Timestamp) : Prop where
  le : ∀ t, round t ≤ t
  idem : ∀ t, round (round t) = round t
  mono : ∀ t u, t ≤ u → round t ≤ round u
  toInt_eq : ∀ t m, IsFloor width t.toInt m → (round t).toInt = max m earliest
  stepwise : ∀ t, floorStepwise? (Int64.ofInt width) t = some (round t)

theorem saturatingFloor_floorTo (hpos : 0 < width) (hlt : width < 2 ^ 63) :
    SaturatingFloor width (floorTo width) where
  le := floorTo_le hpos
  idem := Key.floorTo_floorTo hpos hpos (Int.dvd_refl _)
  mono _ _ := floorTo_mono hpos
  toInt_eq t m h := by rw [toInt_floorTo hpos, h.eq (isFloor_ediv hpos t.toInt)]
  stepwise := floorStepwise?_eq hpos hlt

variable (i : Interval)

theorem columnMillis_bounds : 0 < i.columnMillis ∧ i.columnMillis < 2 ^ 63 := by
  cases i <;> decide

theorem rowMillis_bounds : 0 < i.rowMillis ∧ i.rowMillis < 2 ^ 63 := by cases i <;> decide

theorem saturatingFloor_rowStart : SaturatingFloor i.rowMillis i.rowStart :=
  saturatingFloor_floorTo i.rowMillis_bounds.1 i.rowMillis_bounds.2

theorem saturatingFloor_columnStart : SaturatingFloor i.columnMillis i.columnStart :=
  saturatingFloor_floorTo i.columnMillis_bounds.1 i.columnMillis_bounds.2

theorem rowStart_le_columnStart (t : Timestamp) : i.rowStart t ≤ i.columnStart t :=
  floorTo_le_floorTo i.columnMillis_pos i.rowMillis_pos i.columnMillis_dvd_rowMillis t

/-! ## Times whose buckets all begin in range -/

theorem mem_all : i ∈ all := by cases i <;> decide

theorem supports_iff : supports t = true ↔
    ∀ i : Interval, earliest ≤ t.toInt / i.rowMillis * i.rowMillis := by
  simp [supports, mem_all]

/-- Rounding down is exact where the floor is in range. -/
theorem isFloor_floorTo (hpos : 0 < width) (h : earliest ≤ t.toInt / width * width) :
    IsFloor width t.toInt (floorTo width t).toInt := by
  rw [toInt_floorTo hpos, Int.max_eq_left h]
  exact isFloor_ediv hpos t.toInt

/-- A floor that is a time is not before the earliest one. -/
theorem exists_isFloor_iff (hpos : 0 < width) :
    (∃ m : Timestamp, IsFloor width t.toInt m.toInt) ↔ earliest ≤ t.toInt / width * width := by
  constructor
  · rintro ⟨m, hm⟩
    rw [← hm.eq (isFloor_ediv hpos t.toInt)]
    exact Int64.le_toInt m
  · intro h
    exact ⟨floorTo width t, isFloor_floorTo hpos h⟩

/-- A column begins no earlier than its row. -/
theorem earliest_le_column (h : earliest ≤ t.toInt / i.rowMillis * i.rowMillis) :
    earliest ≤ t.toInt / i.columnMillis * i.columnMillis := by
  have hrow := isFloor_ediv i.rowMillis_pos t.toInt
  have hcolumn := isFloor_ediv i.columnMillis_pos t.toInt
  exact Int.le_trans h
    (hcolumn.le_of_dvd (Int.dvd_trans i.columnMillis_dvd_rowMillis hrow.dvd) hrow.le)

/-- The start of the first whole row of 364 days. -/
def firstRow : Timestamp := Int64.ofInt (earliest.tdiv day.rowMillis * day.rowMillis)

theorem toInt_firstRow : firstRow.toInt = -293274701 * day.rowMillis := by decide

/-- No multiple of 364 days in range is before the start of the first whole row. -/
theorem isLeast_firstRow : IsLeast {m : Timestamp | day.rowMillis ∣ m.toInt} firstRow := by
  constructor
  · show day.rowMillis ∣ firstRow.toInt
    rw [toInt_firstRow]
    exact Int.dvd_mul_left _ _
  · rintro m ⟨n, hn⟩
    have hearliest : earliest ≤ m.toInt := Int64.le_toInt m
    rw [Int64.le_iff_toInt_le, toInt_firstRow, hn]
    rw [hn] at hearliest
    simp only [earliest, rowMillis] at hearliest ⊢
    omega

theorem rowMillis_dvd_day : i.rowMillis ∣ day.rowMillis := by cases i <;> decide

/-- One threshold decides for all precisions, since all row lengths divide the longest one. -/
theorem supports_iff_firstRow_le : supports t = true ↔ firstRow ≤ t := by
  rw [supports_iff]
  constructor
  · intro h
    have hfloor := isFloor_floorTo day.rowMillis_pos (h day)
    exact Int64.le_trans (isLeast_firstRow.2 hfloor.dvd) (floorTo_le day.rowMillis_pos t)
  · intro h i
    have hfirst : i.rowMillis ∣ firstRow.toInt :=
      Int.dvd_trans i.rowMillis_dvd_day isLeast_firstRow.1
    exact Int.le_trans (Int64.le_toInt firstRow)
      ((isFloor_ediv i.rowMillis_pos t.toInt).le_of_dvd hfirst (Int64.le_iff_toInt_le.1 h))

/-- Judging one product after another needs no result that does not fit. -/
theorem supportsStepwise?_eq (t : Timestamp) : supportsStepwise? t = some (supports t) := by
  have hstep : ∀ i : Interval, (do
      let q ← quotient? t (Int64.ofInt i.rowMillis)
      return (product? q (Int64.ofInt i.rowMillis)).isSome : Option Bool) =
      some (decide (earliest ≤ t.toInt / i.rowMillis * i.rowMillis)) := by
    intro i
    rw [quotient?_eq i.rowMillis_bounds.1 i.rowMillis_bounds.2]
    show some _ = _
    rw [product?_quotient i.rowMillis_bounds.1 i.rowMillis_bounds.2]
    split <;> simp_all
  rw [supportsStepwise?, supports]
  simp only [hstep]
  exact List.allM_pure

/-- Rounding down saturates at every precision, a row begins no later than its columns, and every
result on the way fits 64 bits but for the products that are looked at.  A time is supported exactly
when the floors to all row lengths are times, which is so from the least multiple of 364 days on
that is one; and rounding a supported time down is exact at every precision.  -/
theorem rounds_exactly_from_firstRow :
    (∀ i : Interval, SaturatingFloor i.rowMillis i.rowStart ∧
      SaturatingFloor i.columnMillis i.columnStart ∧ ∀ t, i.rowStart t ≤ i.columnStart t) ∧
    (∀ t, supportsStepwise? t = some (supports t)) ∧
    (∀ t, supports t = true ↔
      ∀ i : Interval, ∃ m : Timestamp, IsFloor i.rowMillis t.toInt m.toInt) ∧
    (∃ first : Timestamp, IsLeast {m : Timestamp | 364 * day.columnMillis ∣ m.toInt} first ∧
      ∀ t, supports t = true ↔ first ≤ t) ∧
    (∀ t, supports t = true → ∀ i : Interval,
      IsFloor i.rowMillis t.toInt (i.rowStart t).toInt ∧
      IsFloor i.columnMillis t.toInt (i.columnStart t).toInt) := by
  refine ⟨fun i => ⟨i.saturatingFloor_rowStart, i.saturatingFloor_columnStart,
    i.rowStart_le_columnStart⟩, supportsStepwise?_eq, fun t => ?_,
    ⟨firstRow, isLeast_firstRow, fun t => supports_iff_firstRow_le⟩, fun t h i => ?_⟩
  · simp only [supports_iff, exists_isFloor_iff (rowMillis_pos _)]
  · have hrow := supports_iff.1 h i
    exact ⟨isFloor_floorTo i.rowMillis_pos hrow,
      isFloor_floorTo i.columnMillis_pos (i.earliest_le_column hrow)⟩

/-- The first whole row is supported and the time before it is not.  The earliest time is in a row
that would begin before it. -/
theorem rounds_exactly_from_firstRow_edges :
    (supports firstRow = true ∧
      IsFloor day.rowMillis firstRow.toInt (day.rowStart firstRow).toInt) ∧
    (supports (firstRow - 1) = false ∧
      day.rowStart Int64.minValue ≤ day.rowStart (firstRow - 1)) ∧
    (day.rowStart Int64.minValue).toInt = max (-293274702 * day.rowMillis) earliest := by
  obtain ⟨hround, -, -, -, hexact⟩ := rounds_exactly_from_firstRow
  have hfirst : supports firstRow = true := by decide
  have hbefore : IsFloor day.rowMillis Int64.minValue.toInt (-293274702 * day.rowMillis) :=
    ⟨by decide, by decide, by decide⟩
  exact ⟨⟨hfirst, (hexact firstRow hfirst day).1⟩,
    ⟨by decide, (hround day).1.mono _ _ (by decide)⟩, (hround day).1.toInt_eq _ _ hbefore⟩

end StatRollup.Interval
