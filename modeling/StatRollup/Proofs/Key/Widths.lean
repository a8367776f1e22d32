import StatRollup.Proofs.Key.Codec

/-!
# Keys of different widths

Octets do not say where an identifier ends, so keys with tags of different widths may have the same
octets.  Keys whose statistics have different widths never have (`width_eq_of_toBytes`), whatever
their tags are.  Two octets behind the statistic stands the length of a column, which is one of four
numbers.  Were the octets also those of a key with a narrower statistic, then two such numbers would
overlap.  Their high octets are zero and their low octets are not, which leaves one shift open, by
seven octets over the length of a day.  There the first number would be the time of a row of 52
weeks, and no such row starts there.
-/

namespace StatRollup

/-- The higher octets of a number. -/
theorem Bytes.take_bigEndian (w n : Nat) :
    (bigEndian (w + 1) n).take w = bigEndian w (n / 256) := by
  rw [bigEndian, littleEndian, List.reverse_cons]
  exact List.take_left' (length_bigEndian w (n / 256))

namespace Interval

theorem length_toBytes (i : Interval) : i.toBytes.length = 8 := Bytes.length_bigEndian ..

/-- The lengths of columns do not overlap when they are less than seven octets apart. -/
theorem take_toBytes_ne (i j : Interval) {d : Nat} (hpos : 0 < d) (hlt : d < 7) :
    i.toBytes.take (8 - d) ≠ j.toBytes.drop d := by
  have hall : ∀ d : Fin 7, 0 < d.val → i.toBytes.take (8 - d.val) ≠ j.toBytes.drop d.val := by
    cases i <;> cases j <;> decide
  exact hall ⟨d, hlt⟩ hpos

/-- Only the length of a day ends in the octet that all lengths begin with. -/
theorem eq_day_of_drop_toBytes {i j : Interval} (h : i.toBytes.take 1 = j.toBytes.drop 7) :
    j = day := by
  revert h
  cases i <;> cases j <;> decide

theorem drop_toBytes (i : Interval) :
    i.toBytes.drop 1 = Bytes.bigEndian 7 i.columnMillis.toNat := by
  cases i <;> decide

end Interval

namespace Key

/-- No row of 52 weeks starts at the length of a column, counted in steps of 256 milliseconds from
the earliest time. -/
theorem ordinal_rowStart_day_ne (t : Timestamp) (i : Interval) :
    ordinal (Interval.day.rowStart t) / 256 ≠ i.columnMillis.toNat := by
  have hrow := Interval.toInt_floorTo Interval.day.rowMillis_pos t
  rw [Interval.earliest, show Interval.day.rowMillis = 31449600000 from rfl] at hrow
  rw [ordinal, Interval.rowStart, Interval.earliest,
    show Interval.day.rowMillis = 31449600000 from rfl]
  generalize (Interval.floorTo 31449600000 t).toInt = row at hrow
  cases i <;> simp only [Interval.columnMillis] <;> omega

/-- What stands behind the statistic and the mask. -/
theorem drop_toBytes (k : Key) : ∃ rest,
    k.toBytes.drop (k.statistic.width + 2) =
      k.interval.toBytes ++ (timeBytes k.rowTime ++ rest) := by
  have hbytes : k.toBytes = k.statistic.toBytes ++ k.mask.toBytes ++ k.interval.toBytes ++
      timeBytes k.rowTime ++ (tagBytes k.tags ++ timeBytes k.columnTime) := by
    rw [toBytes, rowKey, columnQualifier, List.append_assoc]
  obtain ⟨_, _, hdrop, _⟩ := drop_parts (Uid.length_toBytes k.statistic)
    (show k.mask.toBytes.length = 2 from Bytes.length_bigEndian ..) k.interval.length_toBytes
    (length_timeBytes k.rowTime) (tagBytes k.tags ++ timeBytes k.columnTime)
  rw [← hbytes] at hdrop
  exact ⟨_, hdrop⟩

/-- The octets of the wider key hold the length of its column where those of the narrower one hold
the end of the length and the beginning of the row. -/
theorem interval_toBytes_of_shift {a b : Key} {d : Nat} (h : a.toBytes = b.toBytes)
    (hshift : a.statistic.width = b.statistic.width + d) (hle : d ≤ 8) :
    a.interval.toBytes = b.interval.toBytes.drop d ++ (timeBytes b.rowTime).take d := by
  obtain ⟨restA, hA⟩ := drop_toBytes a
  obtain ⟨restB, hB⟩ := drop_toBytes b
  have hdrop : a.toBytes.drop (a.statistic.width + 2) =
      (b.toBytes.drop (b.statistic.width + 2)).drop d := by
    rw [h, hshift, List.drop_drop, Nat.add_right_comm]
  have hintervalB := b.interval.length_toBytes
  have hrowB := length_timeBytes b.rowTime
  rw [hA, hB, List.drop_append_of_le_length (by omega)] at hdrop
  have htake := congrArg (List.take 8) hdrop
  rw [List.take_left' a.interval.length_toBytes] at htake
  rw [htake, List.take_append, List.take_of_length_le (by rw [List.length_drop]; omega),
    List.length_drop, hintervalB, show 8 - (8 - d) = d by omega,
    List.take_append_of_le_length (by omega)]

/-- A wider statistic makes other octets. -/
theorem toBytes_ne_of_width_lt {a b : Key} (h : b.statistic.width < a.statistic.width) :
    a.toBytes ≠ b.toBytes := by
  intro heq
  have hwide := a.statistic.width_le
  have hnarrow := b.statistic.width_pos
  obtain ⟨d, hd⟩ := Nat.exists_eq_add_of_lt h
  have hbytes := interval_toBytes_of_shift heq (d := d + 1) (by omega) (by omega)
  have hlength : (b.interval.toBytes.drop (d + 1)).length = 8 - (d + 1) := by
    rw [List.length_drop, b.interval.length_toBytes]
  have htake : a.interval.toBytes.take (8 - (d + 1)) = b.interval.toBytes.drop (d + 1) := by
    rw [hbytes, List.take_left' hlength]
  by_cases hsix : d + 1 < 7
  · exact Interval.take_toBytes_ne _ _ (Nat.succ_pos d) hsix htake
  · obtain rfl : d = 6 := by omega
    have hday : b.interval = .day := Interval.eq_day_of_drop_toBytes htake
    have hrow : (timeBytes b.rowTime).take 7 = a.interval.toBytes.drop 1 := by
      rw [hbytes, List.drop_left' hlength]
    rw [timeBytes, Bytes.take_bigEndian, Interval.drop_toBytes, rowTime, hday] at hrow
    have hordinal := ordinal_lt (Interval.day.rowStart b.columnTime)
    refine ordinal_rowStart_day_ne b.columnTime a.interval (Bytes.bigEndian_inj ?_ ?_ hrow)
    · omega
    · cases a.interval <;> decide

/-- Keys with the same octets have statistics of one width. -/
theorem width_eq_of_toBytes {a b : Key} (h : a.toBytes = b.toBytes) :
    a.statistic.width = b.statistic.width := by
  rcases Nat.lt_trichotomy a.statistic.width b.statistic.width with hlt | heq | hgt
  · exact absurd h.symm (toBytes_ne_of_width_lt hlt)
  · exact heq
  · exact absurd h (toBytes_ne_of_width_lt hgt)

end Key

end StatRollup
