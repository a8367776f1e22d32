import StatRollup.Key.Codec

/-!
# Serialized keys

The octets of a key do not say how wide its identifiers are, so keys of different widths may have
the same octets.  A key whose identifiers all have one width is read back from its octets, and
whatever octets are read as a key are the octets of that key.  So keys of one width and their octets
are one and the same thing, `serialized_exactly`.

Reading judges the row against the column.  A key that is made of a time has the row around that
time, at any precision and for any time, even where the row starts before the earliest time
(`rowStart_columnStart`); so this judgement never refuses a key that was built.
-/

namespace StatRollup

/-- Numbers in the upper half of 64 bits are negative when they are read with a sign. -/
theorem toInt_toInt64 (n : UInt64) : n.toInt64.toInt = Int.bmod n.toNat (2 ^ 64) := by
  show n.toInt64.toBitVec.toInt = _
  rw [UInt64.toBitVec_toInt64, BitVec.toInt_eq_toNat_bmod]
  rfl

/-! ## Intervals and masks -/

namespace Interval

/-- Eight octets stand for a number between minus 2 to the 63 and 2 to the 63. -/
theorem signed_eq {bs : Bytes} (hlen : bs.length = 8) :
    signed bs = Int.bmod (Bytes.ofBigEndian bs) (2 ^ 64) := by
  have hlt : Bytes.ofBigEndian bs < 2 ^ 64 := by
    have := Bytes.ofBigEndian_lt bs
    rwa [hlen] at this
  rw [signed, toInt_toInt64, UInt64.toNat_ofNat', Nat.mod_eq_of_lt hlt]

theorem columnMillis_lt (i : Interval) : i.columnMillis < 2 ^ 63 := by cases i <;> decide

/-- Octets that are read as an interval are its octets. -/
theorem toBytes_of_ofBytes {bs : Bytes} {i : Interval} (hlen : bs.length = 8)
    (h : ofBytes bs = .ok i) : i.toBytes = bs := by
  rw [ofBytes, if_neg (by omega), List.take_of_length_le (Nat.le_of_eq hlen), ofColumnMillis] at h
  split at h
  · next found hfound =>
    cases h
    have hmillis : i.columnMillis = signed bs := by simpa using List.find?_some hfound
    have hvalue : i.columnMillis.toNat = Bytes.ofBigEndian bs := by
      have hpos := i.columnMillis_pos
      have hlt := i.columnMillis_lt
      have hbytes := Bytes.ofBigEndian_lt bs
      rw [signed_eq hlen, Int.bmod] at hmillis
      rw [hlen] at hbytes
      split at hmillis <;> omega
    rw [toBytes, hvalue, ← hlen, Bytes.bigEndian_ofBigEndian]
  · cases h

end Interval

/-- Octets that are read as a mask are its octets. -/
theorem Mask.toBytes_of_ofBytes {bs : Bytes} {m : Mask} (hlen : bs.length = 2)
    (h : ofBytes bs = .ok m) : m.toBytes = bs := by
  rw [ofBytes, if_neg (by omega), List.take_of_length_le (Nat.le_of_eq hlen), ofBits, ofBits?] at h
  split at h
  · next found hfound =>
    cases h
    obtain ⟨_, hbits⟩ := Option.dite_none_right_eq_some.1 hfound
    have hbits : Bytes.ofBigEndian bs = m.bits := congrArg Mask.bits (Option.some.inj hbits)
    rw [toBytes, ← hbits, ← hlen, Bytes.bigEndian_ofBigEndian]
  · cases h

namespace Key

variable {w count n : Nat} {bs rest : Bytes} {ts : List TagValue} {k : Key}

/-- All identifiers of a list of tags have a width. -/
def TagsUniform (w : Nat) (tags : List TagValue) : Prop :=
  ∀ t ∈ tags, t.tag.width = w ∧ t.value.width = w

/-- All identifiers of a key have a width. -/
structure Uniform (w : Nat) (k : Key) : Prop where
  statistic : k.statistic.width = w
  tags : TagsUniform w k.tags

/-! ## Times -/

@[simp] theorem length_timeBytes (t : Timestamp) : (timeBytes t).length = 8 := by
  simp [timeBytes]

theorem ordinal_ofOrdinal (h : n < 256 ^ 8) : ordinal (ofOrdinal n) = n := by
  have hvalue : (ofOrdinal n).toInt = n + Interval.earliest := by
    apply Int64.toInt_ofInt_of_le <;> unfold Interval.earliest <;> omega
  rw [ordinal, hvalue]
  omega

/-- Octets that are read as a time are its octets. -/
theorem timeBytes_readTime (hlen : bs.length = 8) : timeBytes (readTime bs) = bs := by
  have hlt := Bytes.ofBigEndian_lt bs
  rw [hlen] at hlt
  rw [timeBytes, readTime, ordinal_ofOrdinal hlt, ← hlen, Bytes.bigEndian_ofBigEndian]

/-! ## Tags -/

theorem length_pair {t : TagValue} (h : t.tag.width = w ∧ t.value.width = w) :
    (t.tag.toBytes ++ t.value.toBytes).length = 2 * w := by
  rw [List.length_append, Uid.length_toBytes, Uid.length_toBytes, h.1, h.2]
  omega

theorem length_tagBytes (h : TagsUniform w ts) : (tagBytes ts).length = ts.length * (2 * w) := by
  induction ts with
  | nil => rw [tagBytes, List.length_nil, List.length_nil, Nat.zero_mul]
  | cons t ts ih =>
    obtain ⟨ht, hts⟩ := List.forall_mem_cons.1 h
    rw [tagBytes, List.length_append, length_pair ht, ih hts, List.length_cons, Nat.add_comm,
      ← Nat.succ_mul]

/-- Tags of one width are read back. -/
theorem readTags_tagBytes (h : TagsUniform w ts) (rest : Bytes) :
    readTags w ts.length (tagBytes ts ++ rest) = .ok ts := by
  induction ts with
  | nil => rfl
  | cons t ts ih =>
    obtain ⟨⟨htag, hvalue⟩, hts⟩ := List.forall_mem_cons.1 h
    have htagLen : t.tag.toBytes.length = w := by rw [Uid.length_toBytes, htag]
    have hvalueLen : t.value.toBytes.length = w := by rw [Uid.length_toBytes, hvalue]
    have hbytes : tagBytes (t :: ts) ++ rest =
        t.tag.toBytes ++ (t.value.toBytes ++ (tagBytes ts ++ rest)) := by
      simp only [tagBytes, List.append_assoc]
    have hrest : (tagBytes (t :: ts) ++ rest).drop (2 * w) = tagBytes ts ++ rest := by
      rw [tagBytes, List.append_assoc, List.drop_left' (length_pair ⟨htag, hvalue⟩)]
    rw [List.length_cons, readTags, hrest, ih hts, hbytes, List.take_left' htagLen,
      List.drop_left' htagLen, List.take_left' hvalueLen, Uid.ofBytes_toBytes, Uid.ofBytes_toBytes]
    rfl

/-- An identifier has as many octets as it was read from. -/
theorem width_of_ofBytes {u : Uid} (hlen : w ≤ bs.length) (h : Uid.ofBytes (bs.take w) = .ok u) :
    u.width = w := by
  rw [← Uid.length_toBytes, Uid.toBytes_of_ofBytes h, List.length_take, Nat.min_eq_left hlen]

/-- Octets that are read as tags are the octets of these tags. -/
theorem tagBytes_of_readTags (hlen : count * (2 * w) ≤ bs.length)
    (h : readTags w count bs = .ok ts) :
    tagBytes ts = bs.take (count * (2 * w)) ∧ TagsUniform w ts := by
  induction count generalizing bs ts with
  | zero =>
    cases h
    rw [Nat.zero_mul]
    exact ⟨rfl, fun t ht => nomatch ht⟩
  | succ count ih =>
    rw [Nat.succ_mul] at hlen ⊢
    rw [readTags] at h
    obtain ⟨tag, htag, h⟩ := bind_eq_ok.1 h
    obtain ⟨value, hvalue, h⟩ := bind_eq_ok.1 h
    obtain ⟨rest, hrest, h⟩ := bind_eq_ok.1 h
    cases h
    obtain ⟨hbytes, huniform⟩ := ih (by rw [List.length_drop]; omega) hrest
    have htagWidth : tag.width = w := width_of_ofBytes (by omega) htag
    have hvalueWidth : value.width = w := width_of_ofBytes (by rw [List.length_drop]; omega) hvalue
    refine ⟨?_, List.forall_mem_cons.2 ⟨⟨htagWidth, hvalueWidth⟩, huniform⟩⟩
    rw [tagBytes, Uid.toBytes_of_ofBytes htag, Uid.toBytes_of_ofBytes hvalue, hbytes,
      ← List.take_add, ← Nat.two_mul, ← List.take_add, Nat.add_comm]

/-! ## Keys -/

/-- A key of one width has as many octets as its parts. -/
theorem length_toBytes (h : k.Uniform w) :
    k.toBytes.length = fixedLength w + k.tags.length * (2 * w) := by
  simp only [toBytes, rowKey, columnQualifier, List.length_append, Uid.length_toBytes,
    length_timeBytes, length_tagBytes h.tags, h.statistic, Mask.toBytes, Interval.toBytes,
    Bytes.length_bigEndian, fixedLength]
  omega

theorem length_toBytes_eq (h : k.Uniform w) : k.toBytes.length = k.encodedLength := by
  rw [length_toBytes h, encodedLength, fixedLength, h.statistic, Nat.mul_assoc]
  omega

/-- Every part of some octets is read as that part of a key. -/
structure Reads (w : Nat) (bs : Bytes) (k : Key) : Prop where
  width : 0 < w
  long : fixedLength w ≤ bs.length
  whole : (bs.length - fixedLength w) % (2 * w) = 0
  tags : readTags w ((bs.length - fixedLength w) / (2 * w)) (bs.drop (w + 18)) = .ok k.tags
  statistic : Uid.ofBytes (bs.take w) = .ok k.statistic
  mask : Mask.ofBytes ((bs.drop w).take 2) = .ok k.mask
  interval : Interval.ofBytes ((bs.drop (w + 2)).take 8) = .ok k.interval
  row : readTime ((bs.drop (w + 10)).take 8) = k.rowTime
  column : readTime (bs.drop (bs.length - 8)) = k.columnTime

/-- A key is read when all its parts are. -/
theorem ofBytes_eq_ok_iff : ofBytes w bs = .ok k ↔ Reads w bs k := by
  constructor
  · intro h
    rw [ofBytes] at h
    split at h
    · cases h
    · next hguard =>
      obtain ⟨tags, htags, h⟩ := bind_eq_ok.1 h
      split at h
      · next hsorted =>
        obtain ⟨statistic, hstatistic, h⟩ := bind_eq_ok.1 h
        obtain ⟨mask, hmask, h⟩ := bind_eq_ok.1 h
        obtain ⟨interval, hinterval, h⟩ := bind_eq_ok.1 h
        dsimp only at h
        split at h
        · next hrow =>
          cases h
          exact ⟨by omega, by omega, by omega, htags, hstatistic, hmask, hinterval, hrow.symm, rfl⟩
        · cases h
      · cases h
  · intro h
    have hwidth := h.width
    have hlong := h.long
    have hwhole := h.whole
    have hrow : k.interval.rowStart k.columnTime = k.rowTime := rfl
    rw [ofBytes, if_neg (by omega)]
    simp only [h.tags, h.statistic, h.mask, h.interval, h.row, h.column, hrow, bind, Except.bind,
      dif_pos k.sorted, if_pos]
    rfl

/-- What stands behind the first parts of a key. -/
theorem drop_parts {s m i r : Bytes} (hs : s.length = w) (hm : m.length = 2) (hi : i.length = 8)
    (hr : r.length = 8) (rest : Bytes) :
    (s ++ m ++ i ++ r ++ rest).take w = s ∧
      (s ++ m ++ i ++ r ++ rest).drop w = m ++ (i ++ r ++ rest) ∧
      (s ++ m ++ i ++ r ++ rest).drop (w + 2) = i ++ (r ++ rest) ∧
      (s ++ m ++ i ++ r ++ rest).drop (w + 10) = r ++ rest ∧
      (s ++ m ++ i ++ r ++ rest).drop (w + 18) = rest := by
  refine ⟨?_, ?_, ?_, ?_, ?_⟩
  · rw [List.append_assoc, List.append_assoc, List.append_assoc, List.take_left' hs]
  · rw [List.append_assoc, List.append_assoc, List.append_assoc, List.drop_left' hs,
      List.append_assoc]
  · rw [List.append_assoc, List.append_assoc, List.drop_left' (by rw [List.length_append, hs, hm])]
  · rw [List.append_assoc, List.drop_left' (by simp only [List.length_append, hs, hm, hi])]
  · rw [List.drop_left' (by simp only [List.length_append, hs, hm, hi, hr])]

/-- A key of one width is read back. -/
theorem ofBytes_toBytes (h : k.Uniform w) : ofBytes w k.toBytes = .ok k := by
  have hpos : 0 < w := h.statistic ▸ k.statistic.width_pos
  have hlen := length_toBytes h
  have hlong : k.toBytes.length - fixedLength w = k.tags.length * (2 * w) := by omega
  have hcount : (k.toBytes.length - fixedLength w) / (2 * w) = k.tags.length := by
    rw [hlong, Nat.mul_div_cancel _ (by omega)]
  have hmask : k.mask.toBytes.length = 2 := Bytes.length_bigEndian ..
  have hinterval : k.interval.toBytes.length = 8 := Bytes.length_bigEndian ..
  have hbytes : k.toBytes = k.statistic.toBytes ++ k.mask.toBytes ++ k.interval.toBytes ++
      timeBytes k.rowTime ++ (tagBytes k.tags ++ timeBytes k.columnTime) := by
    rw [toBytes, rowKey, columnQualifier, List.append_assoc]
  obtain ⟨htake, hdrop, hdrop2, hdrop10, hdrop18⟩ := drop_parts
    ((Uid.length_toBytes _).trans h.statistic) hmask hinterval (length_timeBytes k.rowTime)
    (tagBytes k.tags ++ timeBytes k.columnTime)
  rw [← hbytes] at htake hdrop hdrop2 hdrop10 hdrop18
  have hcolumn : k.toBytes.drop (k.toBytes.length - 8) = timeBytes k.columnTime := by
    refine List.drop_left' ?_
    rw [toBytes, columnQualifier, List.length_append, length_timeBytes, Nat.add_sub_cancel]
  refine ofBytes_eq_ok_iff.2
    { width := hpos, long := by omega, whole := ?_, tags := ?_, statistic := ?_, mask := ?_,
      interval := ?_, row := ?_, column := ?_ }
  · rw [hlong, Nat.mul_mod_left]
  · rw [hcount, hdrop18, readTags_tagBytes h.tags]
  · rw [htake, Uid.ofBytes_toBytes]
  · rw [hdrop, List.take_left' hmask, Mask.ofBytes_toBytes]
  · rw [hdrop2, List.take_left' hinterval, Interval.ofBytes_toBytes]
  · rw [hdrop10, List.take_left' (length_timeBytes _), readTime_timeBytes]
  · rw [hcolumn, readTime_timeBytes]

/-- Keys of one width with the same octets are the same. -/
theorem toBytes_inj {a b : Key} (ha : a.Uniform w) (hb : b.Uniform w)
    (h : a.toBytes = b.toBytes) : a = b := by
  have hread := ofBytes_toBytes ha
  rw [h, ofBytes_toBytes hb] at hread
  exact (Except.ok.inj hread).symm

/-- Octets are the parts of a key, one behind the other. -/
theorem append_parts (bs : Bytes) (w n : Nat) :
    bs.take w ++ (bs.drop w).take 2 ++ (bs.drop (w + 2)).take 8 ++ (bs.drop (w + 10)).take 8 ++
      (bs.drop (w + 18)).take n ++ bs.drop (w + 18 + n) = bs := by
  rw [← List.take_add, ← List.take_add, ← List.take_add, ← List.take_add, List.take_append_drop]

/-- Octets that are read as a key are the octets of this key, and its identifiers have one width. -/
theorem toBytes_of_ofBytes (h : ofBytes w bs = .ok k) : k.toBytes = bs ∧ k.Uniform w := by
  have hreads := ofBytes_eq_ok_iff.1 h
  have hlong := hreads.long
  have hcount := Nat.div_mul_cancel (Nat.dvd_of_mod_eq_zero hreads.whole)
  rw [fixedLength] at hlong
  obtain ⟨htags, huniform⟩ := tagBytes_of_readTags (by
    rw [hcount, List.length_drop, fixedLength]
    omega) hreads.tags
  rw [hcount] at htags
  have hmask : k.mask.toBytes = (bs.drop w).take 2 :=
    Mask.toBytes_of_ofBytes (by rw [List.length_take, List.length_drop]; omega) hreads.mask
  have hinterval : k.interval.toBytes = (bs.drop (w + 2)).take 8 :=
    Interval.toBytes_of_ofBytes (by rw [List.length_take, List.length_drop]; omega) hreads.interval
  have hrow : timeBytes k.rowTime = (bs.drop (w + 10)).take 8 := by
    rw [← hreads.row]
    exact timeBytes_readTime (by rw [List.length_take, List.length_drop]; omega)
  have hcolumn : timeBytes k.columnTime = bs.drop (bs.length - 8) := by
    rw [← hreads.column]
    exact timeBytes_readTime (by rw [List.length_drop]; omega)
  refine ⟨?_, ⟨width_of_ofBytes (by omega) hreads.statistic, huniform⟩⟩
  have hend : bs.length - 8 = w + 18 + (bs.length - fixedLength w) := by
    rw [fixedLength]
    omega
  rw [toBytes, rowKey, columnQualifier, hrow, hcolumn, hmask, hinterval, htags,
    Uid.toBytes_of_ofBytes hreads.statistic, hend, append_parts]

/-! ## Keys that are built -/

/-- Keys of one width, each with the start of the row around the time that it was made of.  A key
is made of any time, or of another key for any precision. -/
inductive Built (w : Nat) : Key → Timestamp → Prop where
  /-- A key of a time, with tags in any order. -/
  | of {statistic : Uid} {tags : List TagValue} (mask : Mask) (interval : Interval)
      (time : Timestamp) : statistic.width = w → TagsUniform w tags →
      Built w (.of statistic mask interval time tags) (interval.rowStart time)
  /-- The same cell at another precision. -/
  | withInterval {k : Key} {row : Timestamp} (interval : Interval) : Built w k row →
      Built w (k.withInterval interval) (interval.rowStart k.columnTime)

/-- The row of a key that was built can be told from its column. -/
theorem Built.rowTime {row : Timestamp} (h : Built w k row) : k.rowTime = row := by
  cases h with
  | of mask interval time => exact rowStart_columnStart interval time
  | withInterval interval => exact rowStart_columnStart interval _

theorem Built.uniform {row : Timestamp} (h : Built w k row) : k.Uniform w := by
  induction h with
  | of mask interval time hstatistic htags =>
    exact ⟨hstatistic, fun t ht => htags t ((perm_insertionSort _).mem_iff.1 ht)⟩
  | withInterval interval _ ih => exact ⟨ih.statistic, ih.tags⟩

/-- Octets are read as a key exactly when they are the octets of this key and all its identifiers
have the width they are read with.  This holds for every key that is built.  So keys of one width
have the same octets only if they are the same. -/
theorem serialized_exactly (w : Nat) :
    (∀ (k : Key) (row : Timestamp), Built w k row → k.Uniform w ∧ k.rowTime = row) ∧
    (∀ (bs : Bytes) (k : Key), ofBytes w bs = .ok k ↔ k.Uniform w ∧ k.toBytes = bs) ∧
    (∀ k : Key, k.Uniform w →
      k.toBytes.length = k.encodedLength ∧ k.toBytes = k.rowKey ++ k.columnQualifier) ∧
    (∀ a b : Key, a.Uniform w → b.Uniform w → (a.toBytes = b.toBytes ↔ a = b)) := by
  refine ⟨fun k row h => ⟨h.uniform, h.rowTime⟩, fun bs k => ⟨fun h => ?_, ?_⟩,
    fun k h => ⟨length_toBytes_eq h, rfl⟩, fun a b ha hb => ⟨toBytes_inj ha hb, congrArg toBytes⟩⟩
  · exact (toBytes_of_ofBytes h).symm
  · rintro ⟨huniform, rfl⟩
    exact ofBytes_toBytes huniform

/-- A key of the earliest time, whose row and column would start before it, with tags that are not
in order. -/
def earliestKey : Key :=
  .of ⟨2, 7, by decide, by decide, by decide⟩ ⟨2, by decide⟩ .day Int64.minValue
    [⟨⟨2, 9, by decide, by decide, by decide⟩, ⟨2, 65535, by decide, by decide, by decide⟩⟩,
      ⟨⟨2, 4, by decide, by decide, by decide⟩, ⟨2, 5, by decide, by decide, by decide⟩⟩]

theorem serialized_exactly_earliestKey :
    ofBytes 2 earliestKey.toBytes = .ok earliestKey ∧ earliestKey.toBytes.length = 36 ∧
      earliestKey.rowTime = Int64.minValue := by
  have hbuilt : Built 2 earliestKey (Interval.rowStart .day Int64.minValue) :=
    .of _ _ _ rfl (by unfold TagsUniform; decide)
  obtain ⟨hbuilds, hreads, hlengths, _⟩ := serialized_exactly 2
  obtain ⟨huniform, hrow⟩ := hbuilds _ _ hbuilt
  refine ⟨(hreads _ _).2 ⟨huniform, rfl⟩, (hlengths _ huniform).1.trans (by decide), ?_⟩
  rw [hrow]
  decide

end Key

end StatRollup
