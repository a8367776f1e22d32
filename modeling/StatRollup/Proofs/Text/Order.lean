import StatRollup.Proofs.Key.Order
import StatRollup.Proofs.Uid.Framing

/-!
# The order of texts

Texts are in the order of their characters, one after another, and octets are in the order of their
numbers.  Both orders are the same on texts (`compare_ofText`).  The octets of two characters differ
for the first time where the smaller character has the smaller octet, since longer encodings have
greater first octets and encodings of one length write the digits of the character to the base 64,
the highest first (`compare_encoded`).
-/

namespace StatRollup

namespace Bytes

theorem ofText_eq_flatMap (s : String) : ofText s = s.toList.flatMap String.utf8EncodeChar := by
  have hbytes : s.toByteArray = s.toList.utf8Encode := by
    rw [← String.toByteArray_ofList, String.ofList_toList]
  show s.toByteArray.toList = _
  rw [hbytes, ByteArray.toList, toList_loop, List.utf8Encode, List.toList_data_toByteArray]
  rfl

theorem toNat_octet {n : Nat} (h : n < 256) : (UInt8.ofNat n).toNat = n :=
  UInt8.toNat_ofNat_of_lt' h

theorem compare_cons_lt {b c : UInt8} {x y : Bytes} :
    compare (b :: x) (c :: y) = .lt ↔
      b.toNat < c.toNat ∨ b.toNat = c.toNat ∧ compare x y = .lt := by
  rw [List.compare_cons_cons, compare_octet, Ordering.then_eq_lt, Nat.compare_eq_lt,
    Nat.compare_eq_eq]

/-- A smaller number is smaller at the first digit to the base 64 where it differs. -/
theorem digits_lt {m n : Nat} (h : m < n) :
    m / 262144 < n / 262144 ∨ m / 262144 = n / 262144 ∧ (m / 4096 % 64 < n / 4096 % 64 ∨
      m / 4096 % 64 = n / 4096 % 64 ∧ (m / 64 % 64 < n / 64 % 64 ∨
        m / 64 % 64 = n / 64 % 64 ∧ m % 64 < n % 64)) := by
  have hstep : ∀ m n : Nat, m < n → m / 64 < n / 64 ∨ m / 64 = n / 64 ∧ m % 64 < n % 64 := by
    omega
  have hdiv : ∀ k : Nat, k / 64 / 64 = k / 4096 ∧ k / 4096 / 64 = k / 262144 := by omega
  obtain h | ⟨h1, h1'⟩ := hstep m n h
  · obtain h | ⟨h2, h2'⟩ := hstep _ _ h
    · rw [(hdiv m).1, (hdiv n).1] at h
      obtain h | ⟨h3, h3'⟩ := hstep _ _ h
      · rw [(hdiv m).2, (hdiv n).2] at h
        exact .inl h
      · rw [(hdiv m).2, (hdiv n).2] at h3
        exact .inr ⟨h3, .inl h3'⟩
    · omega
  · omega

/-- A smaller character has smaller octets, whatever follows. -/
theorem compare_encoded {c d : Char} (h : c < d) (x y : Bytes) :
    compare (String.utf8EncodeChar c ++ x) (String.utf8EncodeChar d ++ y) = .lt := by
  have hlt : c.val.toNat < d.val.toNat := h
  have hvalid : d.val.toNat < 0x110000 := by
    have hd := d.valid
    simp only [UInt32.isValidChar, Nat.isValidChar] at hd
    omega
  have hlead : c.val.toNat / 262144 % 8 = c.val.toNat / 262144 ∧
      d.val.toNat / 262144 % 8 = d.val.toNat / 262144 := by omega
  have hdigits := digits_lt hlt
  simp only [String.utf8EncodeChar]
  -- One case for every pair of lengths: only for equal lengths do the digits decide.
  repeat' split
  all_goals
    simp (disch := omega) only [List.cons_append, List.nil_append, compare_cons_lt,
      toNat_octet, hlead.1, hlead.2]
    omega

/-- Characters are in order where their octets are, so texts are too. -/
theorem compare_flatMap {cs ds : List Char} (h : cs < ds) :
    compare (cs.flatMap String.utf8EncodeChar) (ds.flatMap String.utf8EncodeChar) = .lt := by
  induction h with
  | @nil d ds =>
    rw [List.flatMap_nil, List.flatMap_cons]
    cases hd : String.utf8EncodeChar d with
    | nil => exact absurd hd String.utf8EncodeChar_ne_nil
    | cons b x => rfl
  | rel hlt =>
    rw [List.flatMap_cons, List.flatMap_cons]
    exact compare_encoded hlt _ _
  | cons _ ih =>
    rw [List.flatMap_cons, List.flatMap_cons, compare_append rfl,
      (Std.ReflCmp.compare_self : compare (String.utf8EncodeChar _) _ = .eq), Ordering.eq_then]
    exact ih

theorem compare_ofText_of_lt {s t : String} (h : compare s t = .lt) :
    compare (ofText s) (ofText t) = .lt := by
  have hlt : s < t := compareOfLessAndEq_eq_lt.1 h
  rw [ofText_eq_flatMap, ofText_eq_flatMap]
  exact compare_flatMap hlt

/-- Texts are in the order of their octets. -/
theorem compare_ofText (s t : String) : compare (ofText s) (ofText t) = compare s t := by
  cases h : compare s t with
  | lt => exact compare_ofText_of_lt h
  | eq =>
    obtain rfl : s = t := Std.LawfulEqOrd.eq_of_compare h
    exact Std.ReflCmp.compare_self
  | gt =>
    have hback := compare_ofText_of_lt (Std.OrientedCmp.lt_of_gt h)
    exact Std.OrientedCmp.gt_of_lt hback

end Bytes

end StatRollup
