import StatRollup.Powers
/-!
# Numbers as bytes

A natural number below `256 ^ w` is written in exactly `w` octets, and `w` octets are read back
as one number.  `littleEndian` puts the least significant octet first, `bigEndian` the most
significant one.  Reading undoes writing up to the width (`ofLittleEndian_littleEndian`), and
writing undoes reading (`littleEndian_ofLittleEndian`).
-/
namespace StatRollup

/-- A run of octets. -/
abbrev Bytes := List UInt8

namespace Bytes

/-! ## Least significant octet first -/

/-- The `w` lowest base-256 digits of `n`, lowest first. -/
def littleEndian : Nat → Nat → Bytes
  | 0, _ => []
  | w + 1, n => UInt8.ofNat n :: littleEndian w (n / 256)

/-- The number whose base-256 digits are given, lowest first. -/
def ofLittleEndian : Bytes → Nat
  | [] => 0
  | b :: bs => b.toNat + 256 * ofLittleEndian bs

@[simp] theorem length_littleEndian (w n : Nat) : (littleEndian w n).length = w := by
  induction w generalizing n with
  | zero => rfl
  | succ w ih => simp [littleEndian, ih]

theorem ofLittleEndian_littleEndian (w n : Nat) :
    ofLittleEndian (littleEndian w n) = n % 256 ^ w := by
  induction w generalizing n with
  | zero => simp [littleEndian, ofLittleEndian, Nat.mod_one]
  | succ w ih =>
    have hb : (UInt8.ofNat n).toNat = n % 256 := UInt8.toNat_ofNat'
    rw [littleEndian, ofLittleEndian, ih, hb, Nat.pow_succ', Nat.mod_mul]

theorem ofLittleEndian_lt (bs : Bytes) : ofLittleEndian bs < 256 ^ bs.length := by
  induction bs with
  | nil => simp [ofLittleEndian]
  | cons b bs ih =>
    have hb : b.toNat < 256 := b.toNat_lt
    rw [ofLittleEndian, List.length_cons, Nat.pow_succ]
    omega

theorem littleEndian_ofLittleEndian (bs : Bytes) :
    littleEndian bs.length (ofLittleEndian bs) = bs := by
  induction bs with
  | nil => rfl
  | cons b bs ih =>
    have hb : b.toNat < 256 := b.toNat_lt
    rw [List.length_cons, ofLittleEndian, littleEndian,
      Nat.add_mul_div_left _ _ (by omega : 0 < 256), Nat.div_eq_of_lt hb, Nat.zero_add, ih]
    congr 1
    apply UInt8.toNat_inj.1
    rw [UInt8.toNat_ofNat', Nat.add_mul_mod_self_left, Nat.mod_eq_of_lt hb]

/-! ## Most significant octet first -/

/-- The `w` lowest base-256 digits of `n`, highest first. -/
def bigEndian (w n : Nat) : Bytes := (littleEndian w n).reverse

/-- The number whose base-256 digits are given, highest first. -/
def ofBigEndian (bs : Bytes) : Nat := ofLittleEndian bs.reverse

@[simp] theorem length_bigEndian (w n : Nat) : (bigEndian w n).length = w := by
  simp [bigEndian]

theorem ofBigEndian_bigEndian (w n : Nat) : ofBigEndian (bigEndian w n) = n % 256 ^ w := by
  simp [ofBigEndian, bigEndian, ofLittleEndian_littleEndian]

theorem ofBigEndian_lt (bs : Bytes) : ofBigEndian bs < 256 ^ bs.length := by
  simpa [ofBigEndian] using ofLittleEndian_lt bs.reverse

theorem bigEndian_ofBigEndian (bs : Bytes) : bigEndian bs.length (ofBigEndian bs) = bs := by
  have h := littleEndian_ofLittleEndian bs.reverse
  rw [List.length_reverse] at h
  rw [bigEndian, ofBigEndian, h, List.reverse_reverse]

/-- Two numbers that fit `w` octets are equal when their octets are. -/
theorem bigEndian_inj {w m n : Nat} (hm : m < 256 ^ w) (hn : n < 256 ^ w)
    (h : bigEndian w m = bigEndian w n) : m = n := by
  have h' := congrArg ofBigEndian h
  rwa [ofBigEndian_bigEndian, ofBigEndian_bigEndian, Nat.mod_eq_of_lt hm,
    Nat.mod_eq_of_lt hn] at h'

/-! ## Examples -/

example : bigEndian 4 1 = [0, 0, 0, 1] := by decide
example : littleEndian 4 0x01020304 = [4, 3, 2, 1] := by decide
example : ofBigEndian [1, 0] = 256 := by decide
/-- Digits beyond the width are dropped. -/
example : bigEndian 1 257 = [1] := by decide

end Bytes

end StatRollup
