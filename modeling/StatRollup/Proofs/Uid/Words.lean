import StatRollup.Proofs.Key.Order
import StatRollup.Uid.Words

/-!
# Identifiers and their octets

Octets are written as the last of the eight octets of a word or, by what a buffer offers, digit by
digit, and read by moving up what was read so far.  All three are the digits of a number, the
highest first: the digits at given places are (`eq_bigEndian`), the last octets of a word are
(`drop_octets`), and reading one more octet is one step of the number that digits make up
(`toNat_readNext`), which loses nothing as long as there are at most eight (`toNat_read`).  The
largest number of a width is a power of two less one, also for eight bytes (`allOnes?_eq`).
-/

namespace StatRollup

/-! ## Digits -/

namespace Bytes

theorem ofLittleEndian_append (bs cs : Bytes) : ofLittleEndian (bs ++ cs) =
    ofLittleEndian bs + 256 ^ bs.length * ofLittleEndian cs := by
  induction bs with
  | nil => simp [ofLittleEndian]
  | cons b bs ih =>
    rw [List.cons_append, ofLittleEndian, ih, ofLittleEndian, List.length_cons, Nat.pow_succ',
      Nat.mul_add, Nat.add_assoc, Nat.mul_assoc]

/-- The first octet counts most. -/
theorem ofBigEndian_cons (b : UInt8) (bs : Bytes) :
    ofBigEndian (b :: bs) = b.toNat * 256 ^ bs.length + ofBigEndian bs := by
  rw [ofBigEndian, List.reverse_cons, ofLittleEndian_append, List.length_reverse, ofLittleEndian,
    ofLittleEndian, ofBigEndian, Nat.mul_zero, Nat.add_zero, Nat.mul_comm, Nat.add_comm]

theorem getElem_littleEndian {w n j : Nat} (h : j < (littleEndian w n).length) :
    (littleEndian w n)[j] = UInt8.ofNat (n / 256 ^ j) := by
  induction w generalizing n j with
  | zero => cases h
  | succ w ih =>
    cases j with
    | zero => simp [littleEndian]
    | succ j =>
      simp only [littleEndian, List.getElem_cons_succ, ih]
      rw [Nat.div_div_eq_div_mul, Nat.pow_succ']

theorem getElem_bigEndian {w n j : Nat} (h : j < (bigEndian w n).length) :
    (bigEndian w n)[j] = UInt8.ofNat (n / 256 ^ (w - 1 - j)) := by
  simp only [bigEndian, List.getElem_reverse, getElem_littleEndian, length_littleEndian]

/-- Octets that are the digits of a number write it. -/
theorem eq_bigEndian {bs : Bytes} {n : Nat}
    (h : ∀ j (hj : j < bs.length), bs[j].toNat = n / 256 ^ (bs.length - 1 - j) % 256) :
    bs = bigEndian bs.length n := by
  refine List.ext_getElem (length_bigEndian ..).symm fun j hj _ => ?_
  rw [getElem_bigEndian, ← UInt8.toNat_inj, h j hj, UInt8.toNat_ofNat']

theorem take_littleEndian (w k n : Nat) : (littleEndian (w + k) n).take w = littleEndian w n := by
  apply List.ext_getElem
  · simp
  · intro j _ _
    rw [List.getElem_take, getElem_littleEndian, getElem_littleEndian]

/-- The last octets write the number as far as they go. -/
theorem drop_bigEndian (w k n : Nat) : (bigEndian (w + k) n).drop k = bigEndian w n := by
  rw [bigEndian, List.drop_reverse, length_littleEndian, Nat.add_sub_cancel_right,
    take_littleEndian, bigEndian]

theorem littleEndian_allOnes (w : Nat) :
    littleEndian w (256 ^ w - 1) = List.replicate w 0xff := by
  induction w with
  | zero => rfl
  | succ w ih =>
    have hpos : 0 < 256 ^ w := Nat.pow_pos (by decide)
    have hdigits : 256 ^ (w + 1) - 1 = 255 + 256 * (256 ^ w - 1) := by
      rw [Nat.pow_succ]
      omega
    have hrest : (255 + 256 * (256 ^ w - 1)) / 256 = 256 ^ w - 1 := by omega
    rw [littleEndian, List.replicate_succ, hdigits, hrest, ih]
    congr 1
    apply UInt8.toNat_inj.1
    rw [UInt8.toNat_ofNat', Nat.add_mul_mod_self_left]
    rfl

theorem bigEndian_allOnes (w : Nat) : bigEndian w (256 ^ w - 1) = List.replicate w 0xff := by
  rw [bigEndian, littleEndian_allOnes, List.reverse_replicate]

end Bytes

namespace Uid

namespace Word

theorem octets_eq (v : UInt64) : octets v = Bytes.bigEndian 8 v.toNat := by
  simp [octets, Bytes.bigEndian, Bytes.littleEndian, ← UInt8.toNat_inj,
    Nat.shiftRight_eq_div_pow, Nat.div_div_eq_div_mul]

/-- The last octets of a word write its number as far as they go. -/
theorem drop_octets (v : UInt64) {width : Nat} (h : width ≤ 8) :
    (octets v).drop (maxWidth - width) = Bytes.bigEndian width v.toNat := by
  obtain ⟨k, hk⟩ := Nat.exists_eq_add_of_le h
  rw [octets_eq, maxWidth, hk, Nat.add_sub_cancel_left, Bytes.drop_bigEndian]

/-- What does not fit a word is lost. -/
theorem toNat_readNext (v : UInt64) (b : UInt8) :
    (readNext v b).toNat = (v.toNat * 256 + b.toNat) % 2 ^ 64 := by
  have hb : b.toNat < 2 ^ 8 := b.toNat_lt
  -- The top octet is moved out and the lowest one is free, so putting an octet in is adding it.
  have hmoved : (v <<< 8).toNat = (v.toNat % 2 ^ 56) <<< 8 := by
    have hbits : (8 : UInt64).toNat % 64 = 8 := rfl
    rw [UInt64.toNat_shiftLeft, hbits, Nat.shiftLeft_eq, Nat.shiftLeft_eq]
    omega
  rw [readNext, UInt64.toNat_or, hmoved, UInt8.toNat_toUInt64, ← Nat.shiftLeft_add_eq_or_of_lt hb,
    Nat.shiftLeft_eq]
  omega

/-- Reading is exact up to what is lost, from any word on. -/
theorem toNat_foldl_readNext (v : UInt64) (bs : Bytes) : (bs.foldl readNext v).toNat =
    (v.toNat * 256 ^ bs.length + Bytes.ofBigEndian bs) % 2 ^ 64 := by
  induction bs generalizing v with
  | nil =>
    rw [List.foldl_nil, List.length_nil, Nat.pow_zero, Nat.mul_one]
    exact (Nat.mod_eq_of_lt v.toNat_lt).symm
  | cons b bs ih =>
    have hparts : (v.toNat * 256 + b.toNat) * 256 ^ bs.length + Bytes.ofBigEndian bs =
        v.toNat * 256 ^ (bs.length + 1) + (b.toNat * 256 ^ bs.length + Bytes.ofBigEndian bs) := by
      rw [Nat.add_mul, Nat.mul_assoc, ← Nat.pow_succ', Nat.add_assoc]
    rw [List.foldl_cons, ih, toNat_readNext, Bytes.ofBigEndian_cons, List.length_cons, ← hparts,
      Nat.add_mod, Nat.mod_mul_mod, ← Nat.add_mod]

theorem toNat_read {bs : Bytes} (h : bs.length ≤ 8) :
    (read bs).toNat = Bytes.ofBigEndian bs := by
  have hlt : Bytes.ofBigEndian bs < 2 ^ 64 :=
    Nat.lt_of_lt_of_le (Bytes.ofBigEndian_lt bs) (Nat.pow_le_pow_right (by decide) h)
  rw [read, toNat_foldl_readNext, UInt64.toNat_zero, Nat.zero_mul, Nat.zero_add,
    Nat.mod_eq_of_lt hlt]

/-! ## The largest number -/

theorem shift?_one {bits : Nat} (h : bits < 64) :
    shift? 1 bits = some (UInt64.ofNat (2 ^ bits)) := by
  rw [shift?, if_pos h]
  congr 1
  apply UInt64.toNat_inj.1
  rw [UInt64.toNat_shiftLeft, UInt64.toNat_ofNat', UInt64.toNat_ofNat', UInt64.toNat_one,
    Nat.mod_mod_of_dvd _ (by decide), Nat.mod_eq_of_lt h, Nat.shiftLeft_eq, Nat.one_mul]

theorem minus?_ofNat {m n : Nat} (hm : m < 2 ^ 64) (h : n ≤ m) :
    minus? (UInt64.ofNat m) (UInt64.ofNat n) = some (UInt64.ofNat (m - n)) := by
  have htaken := UInt64.toNat_ofNat_of_lt' (Nat.lt_of_le_of_lt h hm)
  have hrest := UInt64.toNat_ofNat_of_lt' (Nat.lt_of_le_of_lt (Nat.sub_le m n) hm)
  have hwhole := UInt64.toNat_ofNat_of_lt' hm
  have hle : UInt64.ofNat n ≤ UInt64.ofNat m := by
    rw [UInt64.le_iff_toNat_le, hwhole, htaken]
    exact h
  rw [minus?, if_pos hle]
  congr 1
  apply UInt64.toNat_inj.1
  rw [UInt64.toNat_sub_of_le _ _ hle, hwhole, htaken, hrest]

/-- The largest number of a width is there for every width, and it is that number. -/
theorem allOnes?_eq (width : Nat) : allOnes? width = some (UInt64.ofNat (allOnes width)) := by
  rw [allOnes?]
  split
  · next hle => rw [allOnes, Nat.min_eq_right hle]; rfl
  · next hlt =>
    -- Fewer than eight bytes are fewer bits than a word has, so their power of two is a word.
    rw [maxWidth] at hlt
    have hpow : 256 ^ width = 2 ^ (width * 8) := by
      rw [Nat.mul_comm, Nat.pow_mul]
    have hword : 2 ^ (width * 8) < 2 ^ 64 := Nat.pow_lt_pow_right (by decide) (by omega)
    rw [shift?_one (by omega), allOnes_eq (by omega), hpow]
    exact minus?_ofNat hword Nat.one_le_two_pow

end Word

theorem allOnes_lt (width : Nat) : allOnes width < 2 ^ 64 := by
  have hle : 256 ^ min width maxWidth ≤ 2 ^ 64 :=
    Nat.pow_le_pow_right (by decide) (Nat.min_le_right width 8)
  have hpos : 0 < 256 ^ min width maxWidth := Nat.pow_pos (by decide)
  rw [allOnes]
  omega

theorem allOnes_lt_iff {width value : Nat} (h : isWidth width = true) :
    allOnes width < value ↔ ¬ value < 256 ^ width := by
  have hpos : 0 < 256 ^ width := Nat.pow_pos (by decide)
  rw [allOnes_eq (isWidth_iff.1 h).2]
  omega

/-! ## Identifiers -/

variable {width value : Nat} {u : Uid}

theorem ofNat?_eq_some : ofNat? width value = some u ↔ u.width = width ∧ u.value = value := by
  constructor
  · intro h
    rw [ofNat?] at h
    split at h
    · split at h
      · cases h
        exact ⟨rfl, rfl⟩
      · cases h
    · cases h
  · rintro ⟨rfl, rfl⟩
    rw [ofNat?, dif_pos ⟨u.width_pos, u.width_le⟩, dif_pos u.value_lt]

/-- An identifier is made of its width and its number. -/
theorem ofNat_eq_ok : ofNat width value = .ok u ↔ u.width = width ∧ u.value = value := by
  rw [← ofNat?_eq_some]
  constructor
  · intro h
    rw [ofNat] at h
    split at h
    · split at h
      · next v hv =>
        cases h
        exact hv
      · cases h
    · cases h
  · intro h
    have hwidth : isWidth width = true := by
      rw [← (ofNat?_eq_some.1 h).1]
      exact isWidth_iff.2 ⟨u.width_pos, u.width_le⟩
    rw [ofNat, if_pos hwidth, h]

theorem ofNat_of_lt (hwidth : isWidth width = true) (hlt : value < 256 ^ width) :
    ∃ u, ofNat width value = .ok u := by
  have hw := isWidth_iff.1 hwidth
  exact ⟨⟨width, value, hw.1, hw.2, hlt⟩, ofNat_eq_ok.2 ⟨rfl, rfl⟩⟩

theorem ofNat_of_not_lt (hwidth : isWidth width = true) (hlt : ¬ value < 256 ^ width) :
    ofNat width value = .error (.valueTooWide value width) := by
  have hw := isWidth_iff.1 hwidth
  rw [ofNat, if_pos hwidth, ofNat?, dif_pos hw, dif_neg hlt]

theorem toNat_word (u : Uid) : u.word.value.toNat = u.value := by
  have hlt : u.value < 2 ^ 64 :=
    Nat.lt_of_lt_of_le u.value_lt (Nat.pow_le_pow_right (by decide) u.width_le)
  exact UInt64.toNat_ofNat_of_lt' hlt

theorem toBytes?_word (u : Uid) : u.word.toBytes? = some u.toBytes := by
  have hwidth : u.word.width ≤ maxWidth := u.width_le
  rw [Word.toBytes?, if_pos hwidth, Word.drop_octets _ hwidth, toNat_word]
  rfl

theorem isRolledUp_iff_value : u.isRolledUp = true ↔ u.value = allOnes u.width := by
  rw [isRolledUp, beq_iff_eq, allOnes_eq u.width_le]
  constructor
  · intro h
    exact congrArg value h
  · intro h
    exact ext_value rfl h

theorem isRolledUp?_word (u : Uid) : u.word.isRolledUp? = some u.isRolledUp := by
  rw [Word.isRolledUp?, Word.allOnes?_eq]
  show some _ = some _
  congr 1
  rw [Bool.eq_iff_iff, isRolledUp_iff_value, beq_iff_eq, ← UInt64.toNat_inj, toNat_word,
    UInt64.toNat_ofNat_of_lt' (allOnes_lt _)]
  rfl

/-- A number in a word becomes an identifier where the number does, and with the same refusals. -/
theorem Word.make?_eq (width : Nat) (value : UInt64) :
    make? width value = some ((ofNat width value.toNat).map word) := by
  rw [make?]
  split
  · next hwidth =>
    have hlargest : UInt64.ofNat (allOnes width) < value ↔ ¬ value.toNat < 256 ^ width := by
      rw [UInt64.lt_iff_toNat_lt, UInt64.toNat_ofNat_of_lt' (allOnes_lt _), allOnes_lt_iff hwidth]
    rw [allOnes?_eq]
    show some (if _ then _ else _) = _
    congr 1
    split
    · next hlt => rw [ofNat_of_not_lt hwidth (hlargest.1 hlt)]; rfl
    · next hle =>
      obtain ⟨u, hu⟩ := ofNat_of_lt hwidth (Decidable.not_not.1 (hle ∘ hlargest.2))
      obtain ⟨hw, hv⟩ := ofNat_eq_ok.1 hu
      rw [hu, Except.map, word, hw, hv, UInt64.ofNat_toNat]
  · next hwidth => rw [ofNat, if_neg hwidth]; rfl

/-- Octets are read as the identifier that has them, and refused for their number alone. -/
theorem Word.ofBytes_eq (bs : Bytes) : Word.ofBytes bs = (Uid.ofBytes bs).map word := by
  rw [Word.ofBytes, Uid.ofBytes, Uid.ofBytes?]
  split
  · next hwidth =>
    have hw := isWidth_iff.1 hwidth
    have hread : read bs = UInt64.ofNat (Bytes.ofBigEndian bs) := by
      rw [← toNat_read hw.2, UInt64.ofNat_toNat]
    rw [ofNat?, dif_pos hw, dif_pos (Bytes.ofBigEndian_lt bs), hread]
    rfl
  · next hwidth =>
    rw [isWidth_iff] at hwidth
    rw [ofNat?, dif_neg hwidth]
    rfl

/-! ## Writing behind what a buffer holds -/

/-- Numbers are written behind what a buffer holds, with as many octets as asked for.  When the
number fits them, they are its digits, the highest first.  -/
structure Word.Writes (write : Bytes → UInt64 → Nat → Bytes) : Prop where
  digits : ∀ (buffer : Bytes) (v : UInt64) (width : Nat), width ≤ 8 → v.toNat < 256 ^ width →
    ∃ bs : Bytes, write buffer v width = buffer ++ bs ∧ bs.length = width ∧
      ∀ (j : Nat) (_ : j < bs.length), bs[j].toNat = v.toNat / 256 ^ (width - 1 - j) % 256

theorem Word.Writes.put_word {write : Bytes → UInt64 → Nat → Bytes} (h : Word.Writes write)
    (u : Uid) (buffer : Bytes) : u.word.put write buffer = buffer ++ u.toBytes := by
  have hlt : u.word.value.toNat < 256 ^ u.width := by
    rw [toNat_word]
    exact u.value_lt
  obtain ⟨bs, hwrite, hlength, hdigits⟩ := h.digits buffer u.word.value u.width u.width_le hlt
  have hbytes : bs = u.toBytes := by
    rw [← hlength, toNat_word] at hdigits
    rw [Bytes.eq_bigEndian hdigits, hlength, toBytes]
  rw [Word.put, show u.word.width = u.width from rfl, hwrite, hbytes]

/-- Writing the last of the eight octets of the word. -/
def Word.append (buffer : Bytes) (v : UInt64) (width : Nat) : Bytes :=
  buffer ++ (octets v).drop (maxWidth - width)

theorem Word.writes_append : Word.Writes append where
  digits buffer v width hwidth _ := by
    refine ⟨Bytes.bigEndian width v.toNat, ?_, Bytes.length_bigEndian .., fun j hj => ?_⟩
    · rw [append, drop_octets v hwidth]
    · rw [Bytes.getElem_bigEndian, UInt8.toNat_ofNat']

/-! ## All ones -/

theorem toBytes_rolledUp (u : Uid) : u.rolledUp.toBytes = List.replicate u.width 0xff :=
  Bytes.bigEndian_allOnes u.width

/-- An identifier is rolled up when all its octets are all ones. -/
theorem isRolledUp_iff : u.isRolledUp = true ↔ ∀ b ∈ u.toBytes, b = 0xff := by
  rw [isRolledUp, beq_iff_eq]
  constructor
  · intro h b hb
    rw [h, toBytes_rolledUp] at hb
    exact List.eq_of_mem_replicate hb
  · intro h
    apply toBytes_inj
    rw [toBytes_rolledUp, List.eq_replicate_iff]
    exact ⟨length_toBytes u, h⟩

/-- An identifier and its octets are each other.  For a width of one to eight bytes a number becomes
an identifier exactly when it is below two to the power of the number of bits, and then the
identifier has as many octets as the width says, is written with them behind whatever a buffer
holds, and is read back from them.  One to eight octets are those of an identifier, octets of one
length are in the order of the numbers, and all octets are all ones exactly when the identifier is
rolled up.  What is done with words comes to the same, and no shift and no difference there is
without a result.  -/
theorem octets_exact {write : Bytes → UInt64 → Nat → Bytes} (hwrite : Word.Writes write) :
    (∀ width value, 0 < width → width ≤ 8 →
      ((∃ u, ofNat width value = .ok u) ↔ value < 2 ^ (8 * width))) ∧
    (∀ width value u, ofNat width value = .ok u →
      u.width = width ∧ u.value = value ∧ u.toBytes.length = width ∧
      (∀ buffer, u.word.put write buffer = buffer ++ u.toBytes) ∧ ofBytes u.toBytes = .ok u) ∧
    (∀ bs : Bytes, 0 < bs.length → bs.length ≤ 8 → ∃ u, ofBytes bs = .ok u ∧ u.toBytes = bs) ∧
    (∀ a b : Uid, a.width = b.width → compare a.toBytes b.toBytes = compare a.value b.value) ∧
    (∀ u : Uid, u.isRolledUp = true ↔ ∀ b ∈ u.toBytes, b = 0xff) ∧
    (∀ width value, Word.make? width value = some ((ofNat width value.toNat).map word)) ∧
    (∀ bs, Word.ofBytes bs = (ofBytes bs).map word) ∧
    ∀ u : Uid, u.word.value.toNat = u.value ∧ u.word.toBytes? = some u.toBytes ∧
      u.word.isRolledUp? = some u.isRolledUp := by
  refine ⟨fun width value hpos hle => ?_, fun width value u hu => ?_, fun bs hpos hle => ?_,
    fun a b hwidth => ?_, fun u => isRolledUp_iff, Word.make?_eq, Word.ofBytes_eq,
    fun u => ⟨toNat_word u, toBytes?_word u, isRolledUp?_word u⟩⟩
  · have hwidth := isWidth_iff.2 ⟨hpos, hle⟩
    rw [Nat.pow_mul]
    constructor
    · rintro ⟨u, hu⟩
      obtain ⟨rfl, rfl⟩ := ofNat_eq_ok.1 hu
      exact u.value_lt
    · exact ofNat_of_lt hwidth
  · obtain ⟨rfl, rfl⟩ := ofNat_eq_ok.1 hu
    exact ⟨rfl, rfl, length_toBytes u, hwrite.put_word u, ofBytes_toBytes u⟩
  · obtain ⟨u, hu⟩ := (ofBytes_isOk_iff bs).2 ⟨hpos, hle⟩
    exact ⟨u, hu, toBytes_of_ofBytes hu⟩
  · rw [toBytes, toBytes, ← hwidth, Bytes.compare_bigEndian a.value_lt (hwidth ▸ b.value_lt)]

theorem octets_exact_append : Word.Writes Word.append ∧
    ∃ u, ofNat 2 7 = .ok u ∧ u.word.put Word.append [1] = [1, 0, 7] ∧ ofBytes [0, 7] = .ok u ∧
      u.isRolledUp = false := by
  obtain ⟨hmakes, hidentifies, -, -, hrolledUp, -⟩ := octets_exact Word.writes_append
  obtain ⟨u, hu⟩ := (hmakes 2 7 (by decide) (by decide)).2 (by decide)
  obtain ⟨hwidth, hvalue, -, hput, hread⟩ := hidentifies 2 7 u hu
  have hbytes : u.toBytes = [0, 7] := by
    rw [toBytes, hwidth, hvalue]
    decide
  rw [hbytes] at hput hread
  refine ⟨Word.writes_append, u, hu, hput [1], hread, ?_⟩
  rw [← Bool.not_eq_true, hrolledUp, hbytes]
  decide

end Uid

end StatRollup
