import StatRollup.Proofs.Key.Codec

/-!
# The order of serialized keys

A store that keeps octets in order keeps its keys in the order of their octets.  This is the order
of their parts, one after the other (`toBytes_sorts`).  Every part before the last takes the same
number of octets in both keys, so the octets of a later part count only where all earlier ones are
the same (`compare_append`); and every part is a number of a fixed width, highest octet first, or a
list of such (`compare_bigEndian`).  Times are moved up to be natural numbers, which keeps their
order (`compare_timeBytes`).

Keys with different numbers of tags are not in the order of their parts, since the octets of a tag
then meet those of a column.  The keys of one statistic and mask lie together all the same: whatever
is between two of them begins as they do.
-/

namespace StatRollup

/-! ## Octets in order -/

namespace Bytes

/-- What stands behind beginnings of one length counts only when these are the same. -/
theorem compare_append {x y : Bytes} (h : x.length = y.length) (x' y' : Bytes) :
    compare (x ++ x') (y ++ y') = (compare x y).then (compare x' y') := by
  induction x generalizing y with
  | nil =>
    obtain rfl := List.length_eq_zero_iff.1 h.symm
    rfl
  | cons b x ih =>
    cases y with
    | nil => cases h
    | cons c y =>
      rw [List.cons_append, List.cons_append, List.compare_cons_cons, List.compare_cons_cons,
        ih (Nat.succ.inj h), Ordering.then_assoc]

/-- The digits of a number are in order when the higher ones decide first. -/
theorem compare_div_mod (m n : Nat) :
    (compare (m / 256) (n / 256)).then (compare (m % 256) (n % 256)) = compare m n := by
  rcases Nat.lt_trichotomy (m / 256) (n / 256) with hdiv | hdiv | hdiv
  · rw [Nat.compare_eq_lt.2 hdiv, Nat.compare_eq_lt.2 (show m < n by omega)]
    rfl
  · rw [Nat.compare_eq_eq.2 hdiv, Ordering.eq_then]
    rcases Nat.lt_trichotomy (m % 256) (n % 256) with hmod | hmod | hmod
    · rw [Nat.compare_eq_lt.2 hmod, Nat.compare_eq_lt.2 (show m < n by omega)]
    · rw [Nat.compare_eq_eq.2 hmod, Nat.compare_eq_eq.2 (show m = n by omega)]
    · rw [Nat.compare_eq_gt.2 hmod, Nat.compare_eq_gt.2 (show n < m by omega)]
  · rw [Nat.compare_eq_gt.2 hdiv, Nat.compare_eq_gt.2 (show n < m by omega)]
    rfl

/-- Octets are in the order of their numbers. -/
theorem compare_octet (b c : UInt8) : compare b c = compare b.toNat c.toNat := by
  simp only [compare, compareOfLessAndEq, UInt8.lt_iff_toNat_lt, UInt8.toNat_inj]

/-- Numbers that fit a width are in the order of their octets. -/
theorem compare_bigEndian {w m n : Nat} (hm : m < 256 ^ w) (hn : n < 256 ^ w) :
    compare (bigEndian w m) (bigEndian w n) = compare m n := by
  induction w generalizing m n with
  | zero =>
    obtain rfl : m = 0 := by simpa using hm
    obtain rfl : n = 0 := by simpa using hn
    rfl
  | succ w ih =>
    have hbytes (k : Nat) : bigEndian (w + 1) k = bigEndian w (k / 256) ++ [UInt8.ofNat k] := by
      rw [bigEndian, littleEndian, List.reverse_cons]
      rfl
    have hdigit : compare [UInt8.ofNat m] [UInt8.ofNat n] = compare (m % 256) (n % 256) := by
      rw [List.compare_cons_cons, compare_octet, UInt8.toNat_ofNat', UInt8.toNat_ofNat']
      exact Ordering.then_eq
    rw [Nat.pow_succ] at hm hn
    rw [hbytes, hbytes, compare_append (by rw [length_bigEndian, length_bigEndian]),
      ih (by omega) (by omega), hdigit, compare_div_mod]

end Bytes

/-! ## The parts of a key -/

/-- Identifiers of one width are in the order of their octets. -/
theorem Uid.compare_toBytes {a b : Uid} (h : a.width = b.width) :
    compare a.toBytes b.toBytes = compare a b := by
  have hb : b.value < 256 ^ a.width := h ▸ b.value_lt
  have hwidth : compareOn Uid.width a b = .eq := Nat.compare_eq_eq.2 h
  show _ = (compareOn Uid.value a b).then (compareOn Uid.width a b)
  rw [hwidth, Ordering.then_eq, toBytes, toBytes, ← h, Bytes.compare_bigEndian a.value_lt hb]
  rfl

theorem Mask.compare_toBytes (a b : Mask) : compare a.toBytes b.toBytes = compare a b :=
  Bytes.compare_bigEndian (Nat.lt_trans a.bits_lt (by decide))
    (Nat.lt_trans b.bits_lt (by decide))

/-- A finer precision has a shorter column. -/
theorem Interval.compare_toBytes (i j : Interval) :
    compare i.toBytes j.toBytes = compare i j := by
  cases i <;> cases j <;> decide

namespace Key

variable {w : Nat} {a b lo hi k : Key}

/-- Times are in the order of their octets, those before 1970 too. -/
theorem compare_timeBytes (s t : Timestamp) :
    compare (timeBytes s) (timeBytes t) = compare s.toInt t.toInt := by
  have hs := Int64.le_toInt s
  have ht := Int64.le_toInt t
  have hordinal (u : Timestamp) (hu : -2 ^ 63 ≤ u.toInt) :
      (ordinal u : Int) = u.toInt + 2 ^ 63 := by
    rw [ordinal, Interval.earliest]
    omega
  have hs := hordinal s hs
  have ht := hordinal t ht
  rw [timeBytes, timeBytes, Bytes.compare_bigEndian (ordinal_lt s) (ordinal_lt t)]
  rcases Int.lt_trichotomy s.toInt t.toInt with h | h | h
  · rw [Int.compare_eq_lt.2 h, Nat.compare_eq_lt.2 (by omega)]
  · rw [Int.compare_eq_eq.2 h, Nat.compare_eq_eq.2 (by omega)]
  · rw [Int.compare_eq_gt.2 h, Nat.compare_eq_gt.2 (by omega)]

/-- As many tags are in the order of their octets. -/
theorem compare_tagBytes {ts us : List TagValue} (hts : TagsUniform w ts) (hus : TagsUniform w us)
    (h : ts.length = us.length) : compare (tagBytes ts) (tagBytes us) = compare ts us := by
  induction ts generalizing us with
  | nil =>
    obtain rfl := List.length_eq_zero_iff.1 h.symm
    rfl
  | cons t ts ih =>
    cases us with
    | nil => cases h
    | cons u us =>
      obtain ⟨ht, hts⟩ := List.forall_mem_cons.1 hts
      obtain ⟨hu, hus⟩ := List.forall_mem_cons.1 hus
      have htag : t.tag.width = u.tag.width := ht.1.trans hu.1.symm
      have hvalue : t.value.width = u.value.width := ht.2.trans hu.2.symm
      have hpair : compare t u = (compare t.tag u.tag).then (compare t.value u.value) := rfl
      rw [tagBytes, tagBytes, List.compare_cons_cons,
        Bytes.compare_append (by rw [length_pair ht, length_pair hu]),
        Bytes.compare_append (by rw [Uid.length_toBytes, Uid.length_toBytes, htag]),
        Uid.compare_toBytes htag, Uid.compare_toBytes hvalue, ih hts hus (Nat.succ.inj h), hpair]

/-! ## Whole keys -/

/-- By statistic, mask, precision from the finest on, row, tags and column.  Times are compared as
signed numbers. -/
def fieldOrder : Key → Key → Ordering :=
  compareLex (compareOn statistic) <| compareLex (compareOn mask) <|
    compareLex (compareOn interval) <| compareLex (compareOn fun k => k.rowTime.toInt) <|
    compareLex (compareOn tags) (compareOn fun k => k.columnTime.toInt)

/-- What stands behind the statistic and the mask. -/
def tail (k : Key) : Bytes :=
  k.interval.toBytes ++ (timeBytes k.rowTime ++ (tagBytes k.tags ++ timeBytes k.columnTime))

theorem toBytes_eq_append (k : Key) :
    k.toBytes = k.statistic.toBytes ++ (k.mask.toBytes ++ k.tail) := by
  simp only [toBytes, rowKey, columnQualifier, tail, List.append_assoc]

/-- Statistic and mask decide first, whatever the tags are. -/
theorem compare_toBytes_of_width (h : a.statistic.width = b.statistic.width) :
    compare a.toBytes b.toBytes = (compare a.statistic b.statistic).then
      ((compare a.mask b.mask).then (compare a.tail b.tail)) := by
  have hstatistic : a.statistic.toBytes.length = b.statistic.toBytes.length := by
    rw [Uid.length_toBytes, Uid.length_toBytes, h]
  have hmask : a.mask.toBytes.length = b.mask.toBytes.length := by
    rw [Mask.toBytes, Mask.toBytes, Bytes.length_bigEndian, Bytes.length_bigEndian]
  rw [toBytes_eq_append, toBytes_eq_append, Bytes.compare_append hstatistic,
    Bytes.compare_append hmask, Uid.compare_toBytes h, Mask.compare_toBytes]

/-- With as many tags of one width, precision, row, tags and column decide in this order. -/
theorem compare_tail (ha : TagsUniform w a.tags) (hb : TagsUniform w b.tags)
    (h : a.tags.length = b.tags.length) :
    compare a.tail b.tail = (compare a.interval b.interval).then
      ((compare a.rowTime.toInt b.rowTime.toInt).then
        ((compare a.tags b.tags).then (compare a.columnTime.toInt b.columnTime.toInt))) := by
  have hinterval : a.interval.toBytes.length = b.interval.toBytes.length := by
    rw [Interval.toBytes, Interval.toBytes, Bytes.length_bigEndian, Bytes.length_bigEndian]
  have hrow : (timeBytes a.rowTime).length = (timeBytes b.rowTime).length := by
    rw [length_timeBytes, length_timeBytes]
  have htags : (tagBytes a.tags).length = (tagBytes b.tags).length := by
    rw [length_tagBytes ha, length_tagBytes hb, h]
  rw [tail, tail, Bytes.compare_append hinterval, Bytes.compare_append hrow,
    Bytes.compare_append htags, Interval.compare_toBytes, compare_timeBytes,
    compare_tagBytes ha hb h, compare_timeBytes]

/-- What is between two keys of a statistic and a mask belongs to both. -/
theorem same_of_between (hwidth : k.statistic.width = lo.statistic.width)
    (hstatistic : hi.statistic = lo.statistic) (hmask : hi.mask = lo.mask)
    (hlo : (compare lo.toBytes k.toBytes).isLE = true)
    (hhi : (compare k.toBytes hi.toBytes).isLE = true) :
    k.statistic = lo.statistic ∧ k.mask = lo.mask := by
  rw [compare_toBytes_of_width hwidth.symm] at hlo
  rw [compare_toBytes_of_width (hwidth.trans (congrArg Uid.width hstatistic.symm)), hstatistic,
    hmask] at hhi
  have hsame : lo.statistic = k.statistic := Std.LawfulEqOrd.eq_of_compare <|
    Std.OrientedCmp.isLE_antisymm (Ordering.isLE_then_iff_and.1 hlo).1
      (Ordering.isLE_then_iff_and.1 hhi).1
  -- The statistics are the same, so the masks decide.
  have hundecided : compare k.statistic k.statistic = .eq := Std.ReflCmp.compare_self
  rw [hsame, hundecided, Ordering.eq_then] at hlo hhi
  have hmasks : lo.mask = k.mask := Std.LawfulEqOrd.eq_of_compare <|
    Std.OrientedCmp.isLE_antisymm (Ordering.isLE_then_iff_and.1 hlo).1
      (Ordering.isLE_then_iff_and.1 hhi).1
  exact ⟨hsame.symm, hmasks.symm⟩

/-- Keys of one width with as many tags are in the order of statistic, mask, precision, row, tags
and column.  With any numbers of tags, what is between two keys of a statistic and a mask is a key
of this statistic and this mask. -/
theorem toBytes_sorts (w : Nat) :
    (∀ a b : Key, a.Uniform w → b.Uniform w → a.tags.length = b.tags.length →
      compare a.toBytes b.toBytes = fieldOrder a b) ∧
    (∀ (s : Uid) (m : Mask) (lo k hi : Key), lo.statistic = s → lo.mask = m →
      hi.statistic = s → hi.mask = m → k.statistic.width = s.width →
      (compare lo.toBytes k.toBytes).isLE = true → (compare k.toBytes hi.toBytes).isLE = true →
      k.statistic = s ∧ k.mask = m) := by
  refine ⟨fun a b ha hb h => ?_, ?_⟩
  · rw [compare_toBytes_of_width (ha.statistic.trans hb.statistic.symm),
      compare_tail ha.tags hb.tags h]
    rfl
  · rintro s m lo k hi rfl rfl hstatistic hmask hwidth hlo hhi
    exact same_of_between hwidth hstatistic hmask hlo hhi

/-- A key with identifiers of seven octets, and the tag 4. -/
def taggedKey (statistic : Fin 256) (mask : Mask) (interval : Interval) (time : Timestamp)
    (value : Fin 256) : Key :=
  .of ⟨7, statistic, by decide, by decide, by omega⟩ mask interval time
    [⟨⟨7, 4, by decide, by decide, by decide⟩, ⟨7, value, by decide, by decide, by omega⟩⟩]

/-- A key of the same statistic without tags, in rows of a day. -/
def bareKey : Key := .of ⟨7, 7, by decide, by decide, by decide⟩ .zero .minute 0 []

theorem uniform_taggedKey (statistic : Fin 256) (mask : Mask) (interval : Interval)
    (time : Timestamp) (value : Fin 256) :
    (taggedKey statistic mask interval time value).Uniform 7 := by
  refine ⟨rfl, fun t ht => ?_⟩
  obtain rfl : t = _ := List.mem_singleton.1 ht
  exact ⟨rfl, rfl⟩

/-- A row before 1970 comes first although its tag value is greater, and in one row the tag value
decides before the column does.  A key without tags between two keys with one has the statistic and
mask of both. -/
theorem toBytes_sorts_taggedKey :
    compare (taggedKey 7 .zero .second (-1) 9).toBytes (taggedKey 7 .zero .second 0 3).toBytes =
      .lt ∧
    compare (taggedKey 7 .zero .second 5000 3).toBytes (taggedKey 7 .zero .second 0 9).toBytes =
      .lt ∧
    bareKey.statistic = (taggedKey 7 .zero .second 0 3).statistic ∧ bareKey.mask = .zero := by
  obtain ⟨hsorts, hbetween⟩ := toBytes_sorts 7
  refine ⟨?_, ?_, hbetween _ _ (taggedKey 7 .zero .second 0 3) bareKey (taggedKey 7 .zero .day 0 3)
    rfl rfl rfl rfl rfl (by decide +kernel) (by decide +kernel)⟩
  · rw [hsorts (taggedKey 7 .zero .second (-1) 9) (taggedKey 7 .zero .second 0 3)
      (uniform_taggedKey ..) (uniform_taggedKey ..) (by decide +kernel)]
    decide +kernel
  · rw [hsorts (taggedKey 7 .zero .second 5000 3) (taggedKey 7 .zero .second 0 9)
      (uniform_taggedKey ..) (uniform_taggedKey ..) (by decide +kernel)]
    decide +kernel

end Key

end StatRollup
