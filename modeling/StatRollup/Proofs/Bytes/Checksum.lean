import StatRollup.Bytes.Checksum

/-!
# What the check notices

Taking a bit into the remainder can be undone: the highest bit of the new remainder says whether the
polynomial was added, since the polynomial has that bit and a remainder that was only shifted has
not.  So the remainder after some octets tells the remainder before them, and the remainder after
one octet tells the octet.  Two runs of octets that differ in exactly one place never have the same
check, `crc32_set_ne`.
-/

namespace StatRollup.Bytes

variable {r s : UInt32} {a b : UInt8} {bs : Bytes}

/-! ## One bit -/

/-- The lowest bit of a remainder, as a number. -/
theorem and_one_eq_zero_iff : r &&& 1 = 0 ↔ r.toNat % 2 = 0 := by
  rw [← UInt32.toNat_inj, UInt32.toNat_and, UInt32.toNat_one, Nat.and_one_is_mod]
  rfl

theorem toNat_shiftRight_one (r : UInt32) : (r >>> 1).toNat = r.toNat / 2 := by
  rw [UInt32.toNat_shiftRight]
  exact Nat.shiftRight_eq_div_pow r.toNat 1

/-- A remainder is known by its lowest bit and its other bits. -/
theorem eq_of_shiftRight_one (hlow : r &&& 1 = 0 ↔ s &&& 1 = 0) (hhigh : r >>> 1 = s >>> 1) :
    r = s := by
  rw [and_one_eq_zero_iff, and_one_eq_zero_iff] at hlow
  have hhalf := congrArg UInt32.toNat hhigh
  rw [toNat_shiftRight_one, toNat_shiftRight_one] at hhalf
  apply UInt32.toNat_inj.1
  omega

/-- A shifted remainder never becomes another one when the polynomial is added. -/
theorem shiftRight_one_ne (r s : UInt32) : r >>> 1 ≠ (s >>> 1) ^^^ 0xEDB88320 := by
  intro h
  have hpoly : (r >>> 1) ^^^ (s >>> 1) = 0xEDB88320 := by
    rw [h, UInt32.xor_comm, ← UInt32.xor_assoc, UInt32.xor_self, UInt32.zero_xor]
  have hlow (x : UInt32) : (x >>> 1).toNat < 2 ^ 31 := by
    have hx := x.toNat_lt
    rw [toNat_shiftRight_one]
    omega
  have hlt := Nat.xor_lt_two_pow (hlow r) (hlow s)
  rw [← UInt32.toNat_xor, hpoly] at hlt
  exact absurd hlt (by decide)

theorem crcBit_inj (h : crcBit r = crcBit s) : r = s := by
  rw [crcBit, crcBit] at h
  split at h <;> split at h
  · next hr hs => exact eq_of_shiftRight_one (iff_of_true hr hs) h
  · exact absurd h (shiftRight_one_ne r s)
  · exact absurd h.symm (shiftRight_one_ne s r)
  · next hr hs => exact eq_of_shiftRight_one (iff_of_false hr hs) ((UInt32.xor_left_inj _).1 h)

/-! ## Octets -/

theorem xor_eq_of_crcByte (h : crcByte r a = crcByte s b) :
    r ^^^ a.toUInt32 = s ^^^ b.toUInt32 :=
  crcBit_inj (crcBit_inj (crcBit_inj (crcBit_inj
    (crcBit_inj (crcBit_inj (crcBit_inj (crcBit_inj h)))))))

theorem crcByte_inj (h : crcByte r b = crcByte s b) : r = s :=
  (UInt32.xor_left_inj _).1 (xor_eq_of_crcByte h)

theorem crcByte_octet_inj (h : crcByte r a = crcByte r b) : a = b := by
  have hab := (UInt32.xor_right_inj _).1 (xor_eq_of_crcByte h)
  apply UInt8.toNat_inj.1
  exact congrArg UInt32.toNat hab

theorem crcFrom_inj (bs : Bytes) (h : crcFrom r bs = crcFrom s bs) : r = s := by
  induction bs generalizing r s with
  | nil => exact h
  | cons b bs ih => exact crcByte_inj (ih h)

/-- Runs of octets that differ in one place have different checks. -/
theorem crc32_ne (h : a ≠ b) (as bs : Bytes) : crc32 (as ++ a :: bs) ≠ crc32 (as ++ b :: bs) := by
  intro heq
  have hfrom := (UInt32.xor_left_inj _).1 heq
  rw [crcFrom_append, crcFrom_append] at hfrom
  exact h (crcByte_octet_inj (crcFrom_inj bs hfrom))

/-- Changing one octet changes the check. -/
theorem crc32_set_ne {i : Nat} (hi : i < bs.length) (h : bs[i] ≠ b) :
    crc32 (bs.set i b) ≠ crc32 bs := by
  have hsplit : bs = bs.take i ++ bs[i] :: bs.drop (i + 1) := by
    rw [List.getElem_cons_drop, List.take_append_drop]
  have hset : bs.set i b = bs.take i ++ b :: bs.drop (i + 1) := by
    rw [List.set_eq_take_append_cons_drop, if_pos hi]
  rw [hset]
  intro heq
  exact crc32_ne h _ _ ((congrArg crc32 hsplit).symm.trans heq.symm)

end StatRollup.Bytes
